import LoxInterpreter.Proofs.Grammar.Rules

/-!
Contract: a normal tree is read from the tokens that write it.

An operand is read to its end where what follows does not continue it. Which tokens continue an
operand depends on its place: the tighter the place, the fewer. Operators that group to the left are
followed along their left operands down to the first one, and read again from there.

Owns: what may follow at each place, and `read_tokens`.
Does not own: the converse (`Proofs.Grammar.Soundness`).
-/

namespace LoxInterpreter.Grammar

open Token LoxInterpreter.Grammar.Parser

/-! ## What tokens begin with -/

/-- Whether a kind of token begins what stands for itself or in parentheses. -/
def startsPrimary : Token.Kind → Bool
  | .leftParen | .identifier | .string _ | .number _ => true
  | .keyword .trueWord | .keyword .falseWord | .keyword .nilWord => true
  | _ => false

/-- Whether a kind of token begins an expression. -/
def startsExpression : Token.Kind → Bool
  | .minus | .bang => true
  | kind => startsPrimary kind

theorem startsExpression_of_startsPrimary {kind : Token.Kind} (starts : startsPrimary kind = true) :
    startsExpression kind = true := by
  unfold startsExpression
  split <;> first | rfl | exact starts

/-- An expression begins with what begins expressions, and from the rank of calls on with what begins
primary ones. -/
theorem front_expression : (value : Expression Unit) → value.Normal → (rest : List Token) →
    startsExpression (front (value.tokens ++ rest)) = true ∧
      (callRank ≤ value.rank → startsPrimary (front (value.tokens ++ rest)) = true)
  | .constant value, _, rest => by
      have starts : startsPrimary value.token.kind = true := by
        cases value with
        | boolean truth => cases truth <;> rfl
        | _ => rfl
      exact ⟨startsExpression_of_startsPrimary starts, fun _ => starts⟩
  | .grouping _, _, _ => ⟨rfl, fun _ => rfl⟩
  | .variable _ _, _, _ => ⟨rfl, fun _ => rfl⟩
  | .assignment _ _ _, _, _ => ⟨rfl, fun _ => rfl⟩
  | .unary operator _ _, _, _ => by
      refine ⟨by cases operator <;> rfl, fun tight => ?_⟩
      simp [Expression.rank, callRank, unaryRank] at tight
  | .binary operator _ left right, normal, rest => by
      rw [Expression.tokens, List.append_assoc]
      refine ⟨(front_expression left normal.2.2.1 _).1, fun tight => ?_⟩
      cases operator <;>
        simp [Expression.rank, callRank, BinaryOperator.level, Level.rank] at tight
  | .logical operator _ left right, normal, rest => by
      rw [Expression.tokens, List.append_assoc]
      refine ⟨(front_expression left normal.2.2.1 _).1, fun tight => ?_⟩
      cases operator <;>
        simp [Expression.rank, callRank, LogicalOperator.level, Level.rank] at tight
  | .call callee _ _, normal, rest => by
      rw [Expression.tokens, List.append_assoc]
      obtain ⟨starts, startsPrimary⟩ := front_expression callee normal.2.1 _
      exact ⟨starts, fun _ => startsPrimary normal.1⟩

/-! ## Repetition -/

/-- Whether a number of steps of a growth leads from one value to another. -/
def Grown {α : Type} (step : α → Parser (Option α)) (steps : Nat) (start : α) (tokens : List Token)
    (value : α) (rest : List Token) : Prop :=
  ∀ bound result remaining, (grow step bound value).Reads rest result remaining →
    (grow step (bound + steps) start).Reads tokens result remaining

theorem Grown.refl {α : Type} {step : α → Parser (Option α)} (value : α) (tokens : List Token) :
    Grown step 0 value tokens value tokens :=
  fun _ _ _ reads => reads

theorem Grown.step {α : Type} {step : α → Parser (Option α)} {steps : Nat} {start value grown : α}
    {tokens between rest : List Token} (before : Grown step steps start tokens value between)
    (one : (step value).Reads between (some grown) rest) :
    Grown step (steps + 1) start tokens grown rest := by
  intro bound result remaining reads
  have more : (grow step (bound + 1) value).Reads between result remaining :=
    reads_grow_iff.mpr (.inr ⟨grown, rest, one, reads⟩)
  rw [Nat.add_comm steps, ← Nat.add_assoc]
  exact before _ _ _ more

/-- A growth of few steps ends where the next step adds nothing. -/
theorem Grown.reads {α : Type} {step : α → Parser (Option α)} {steps bound : Nat} {start value : α}
    {tokens rest : List Token} (grown : Grown step steps start tokens value rest)
    (enough : steps ≤ bound) (stops : (step value).Reads rest none rest) :
    (grow step bound start).Reads tokens value rest := by
  rw [← Nat.sub_add_cancel enough]
  refine grown (bound - steps) value rest ?_
  cases bound - steps with
  | zero => exact reads_pure_iff.mpr ⟨rfl, rfl⟩
  | succ more => exact reads_grow_iff.mpr (.inl ⟨stops, rfl⟩)

/-- Items are read from what they write with commas between them. -/
theorem commaSeparated_complete {α : Type} {item : Parser α} {excess : SyntaxError.Cause}
    {write : α → List Token} {items : List α} {bound count : Nat} {rest : List Token}
    (complete : ∀ value ∈ items, ∀ behind, front behind = .comma ∨ front behind = .rightParen →
      item.Reads (write value ++ behind) value behind)
    (nonempty : items ≠ []) (fits : count + items.length ≤ itemLimit)
    (enough : items.length ≤ bound) (closes : front rest = .rightParen) :
    (commaSeparated item excess bound count).Reads (joinedByCommas (items.map write) ++ rest) items
      rest := by
  induction items generalizing bound count with
  | nil => exact absurd rfl nonempty
  | cons first later inductionHypothesis =>
      obtain ⟨bound, rfl⟩ : ∃ less, bound = less + 1 :=
        ⟨bound - 1, by simp only [List.length_cons] at enough; omega⟩
      simp only [List.length_cons, Nat.add_le_add_iff_right] at fits enough
      have readsFirst := complete first List.mem_cons_self
      refine reads_commaSeparated_iff.mpr ⟨by omega, first, ?_⟩
      cases later with
      | nil =>
          refine ⟨rest, readsFirst rest (.inr closes), .inl ⟨?_, rfl, rfl⟩⟩
          rw [closes]
          decide
      | cons second others =>
          have readsLater : (commaSeparated item excess bound (count + 1)).Reads
              (joinedByCommas ((second :: others).map write) ++ rest) (second :: others) rest :=
            inductionHypothesis (fun value member => complete value (List.mem_cons_of_mem _ member))
              (by simp) (by omega) enough
          simp only [List.map_cons, joinedByCommas, List.append_assoc, List.cons_append]
          exact ⟨_, readsFirst _ (.inl rfl), .inr ⟨_, _, ⟨_, rfl, rfl⟩, readsLater, rfl⟩⟩

/-- A list in parentheses is read from what writes it. -/
theorem list_complete {α : Type} {item : Parser α} {excess : SyntaxError.Cause}
    {write : α → List Token} {items : List α} {bound : Nat} {rest : List Token}
    (complete : ∀ value ∈ items, ∀ behind, front behind = .comma ∨ front behind = .rightParen →
      item.Reads (write value ++ behind) value behind)
    (begins : ∀ value ∈ items, ∀ behind, front (write value ++ behind) ≠ .rightParen)
    (fits : items.length ≤ itemLimit) (enough : items.length ≤ bound)
    (closes : front rest = .rightParen) :
    (Parser.list item excess bound).Reads (joinedByCommas (items.map write) ++ rest) items rest := by
  cases items with
  | nil => exact reads_list_iff.mpr (.inl ⟨closes, rfl, rfl⟩)
  | cons first later =>
      refine reads_list_iff.mpr (.inr ⟨?_, commaSeparated_complete complete (by simp) (by omega) enough
        closes⟩)
      cases later with
      | nil => exact begins first List.mem_cons_self rest
      | cons second others =>
          simp only [List.map_cons, joinedByCommas, List.append_assoc, List.cons_append]
          exact begins first List.mem_cons_self _

/-- As many items as are joined with commas, at least so many tokens. -/
theorem length_le_joinedByCommas {α : Type} {write : α → List Token} (items : List α)
    (written : ∀ value, 0 < (write value).length) :
    items.length ≤ (joinedByCommas (items.map write)).length := by
  induction items with
  | nil => exact Nat.zero_le _
  | cons first later inductionHypothesis =>
      have := written first
      cases later with
      | nil => simpa [joinedByCommas, Nat.succ_le_iff] using this
      | cons second others =>
          simp only [List.map_cons, List.length_cons, joinedByCommas, List.length_append]
            at inductionHypothesis ⊢
          omega

/-- What one item writes is no longer than all of them joined. -/
theorem length_item_le_joinedByCommas {α : Type} (write : α → List Token) {items : List α}
    {value : α} (member : value ∈ items) :
    (write value).length ≤ (joinedByCommas (items.map write)).length := by
  induction items with
  | nil => simp at member
  | cons first later inductionHypothesis =>
      cases later with
      | nil =>
          rw [List.mem_singleton.mp member]
          exact Nat.le_refl _
      | cons second others =>
          simp only [List.map_cons, joinedByCommas, List.length_append, List.length_cons]
            at inductionHypothesis ⊢
          rcases List.mem_cons.mp member with rfl | behind
          · omega
          · have := inductionHypothesis behind
            omega

/-! ## What may follow -/

/-- What ends an operand of the operators on one operand. -/
def EndsOperand (kind : Token.Kind) : Prop := kind ≠ .leftParen

/-- What ends operands and operators of some levels. -/
def EndsLevels (levels : List Level) (kind : Token.Kind) : Prop :=
  EndsOperand kind ∧ ∀ level ∈ levels, ¬ level.HasKind kind

/-- What ends an expression. -/
def EndsExpression (kind : Token.Kind) : Prop := EndsLevels Level.all kind ∧ kind ≠ .equal

theorem not_hasKind {kind : Token.Kind} (mark : kind ∈ [.comma, .rightParen, .semicolon, .equal])
    (level : Level) : ¬ level.HasKind kind := by
  rintro (⟨operator, _, rfl⟩ | ⟨operator, _, rfl⟩) <;> cases operator <;> revert mark <;> decide

/-- The marks behind expressions end them. -/
theorem endsExpression_of_mark {kind : Token.Kind} (mark : kind ∈ [.comma, .rightParen, .semicolon]) :
    EndsExpression kind := by
  have levels := not_hasKind (List.mem_append_left [.equal] mark)
  refine ⟨⟨?_, fun level _ => levels level⟩, ?_⟩
  all_goals
    rintro rfl
    revert mark
    decide

/-- No token is an operator of two levels. -/
theorem Level.HasKind.unique {level level' : Level} {kind : Token.Kind} (first : level.HasKind kind)
    (second : level'.HasKind kind) : level = level' := by
  rcases first with ⟨operator, rfl, rfl⟩ | ⟨operator, rfl, rfl⟩ <;>
    rcases second with ⟨operator', rfl, same⟩ | ⟨operator', rfl, same⟩ <;>
      cases operator <;> cases operator' <;> first | rfl | exact absurd same (by decide)

theorem Level.HasKind.endsOperand {level : Level} {kind : Token.Kind} (hasKind : level.HasKind kind) :
    EndsOperand kind := by
  rcases hasKind with ⟨operator, _, rfl⟩ | ⟨operator, _, rfl⟩ <;> cases operator <;>
    simp [EndsOperand, LogicalOperator.kind, BinaryOperator.kind]

/-! ## Expressions -/

/-- Whether a parser reads every normal expression of at least some rank, written in at most so many
tokens, where what follows ends it. -/
def CompleteExpression (rank limit : Nat) (ends : Token.Kind → Prop)
    (parser : Parser (Expression Unit)) : Prop :=
  ∀ value rest, value.Normal → rank ≤ value.rank → value.tokens.length ≤ limit → ends (front rest) →
    parser.Reads (value.tokens ++ rest) value rest

theorem primaryRule_complete {limit : Nat} {nested : Parser (Expression Unit)}
    (complete : CompleteExpression 0 limit EndsExpression nested) :
    CompleteExpression primaryRank (limit + 1) (fun _ => True) (primaryRule nested) := by
  intro value rest normal tight short _
  refine reads_primaryRule_iff.mpr ?_
  cases value with
  | constant value =>
      refine .inl ⟨value.token, rfl, ?_⟩
      cases value with
      | boolean truth => cases truth <;> rfl
      | _ => rfl
  | «variable» name reference => exact .inl ⟨name.token, rfl, rfl⟩
  | grouping inner =>
      simp only [Expression.tokens, List.length_cons, List.length_append, List.length_nil] at short
      refine .inr ⟨_, inner, unplaced .rightParen :: rest, ⟨_, rfl, rfl⟩, ?_, ⟨_, rfl, rfl⟩, rfl⟩
      rw [List.append_eq, List.append_assoc]
      exact complete inner _ normal (Nat.zero_le _) (by omega) (endsExpression_of_mark (by simp))
  | binary operator line left right =>
      cases operator <;> simp [Expression.rank, primaryRank, BinaryOperator.level, Level.rank] at tight
  | logical operator line left right =>
      cases operator <;>
        simp [Expression.rank, primaryRank, LogicalOperator.level, Level.rank] at tight
  | _ => simp [Expression.rank, primaryRank, callRank, unaryRank] at tight

/-- From the rank of calls on, an expression is a primary one or a call. -/
theorem primary_or_call {value : Expression Unit} (tight : callRank ≤ value.rank) :
    primaryRank ≤ value.rank ∨ ∃ callee arguments line, value = .call callee arguments line := by
  cases value with
  | call callee arguments line => exact .inr ⟨callee, arguments, line, rfl⟩
  | constant | grouping | «variable» => exact .inl (Nat.le_refl _)
  | binary operator line left right =>
      cases operator <;> simp [Expression.rank, callRank, BinaryOperator.level, Level.rank] at tight
  | logical operator line left right =>
      cases operator <;> simp [Expression.rank, callRank, LogicalOperator.level, Level.rank] at tight
  | _ => simp [Expression.rank, callRank, unaryRank] at tight

/-- A call is read behind its callee. -/
theorem callStep_complete {limit bound : Nat} {nested : Parser (Expression Unit)}
    (complete : CompleteExpression 0 limit EndsExpression nested) {callee : Expression Unit}
    {arguments : List (Expression Unit)} {line : Nat}
    (normal : (Expression.call callee arguments line).Normal) {rest : List Token}
    (short : (joinedByCommas (arguments.map Expression.tokens)).length ≤ limit) (enough : limit ≤ bound) :
    (callStep nested bound callee).Reads (unplaced .leftParen ::
      (joinedByCommas (arguments.map Expression.tokens) ++ ofSymbol .rightParen line :: rest))
      (some (.call callee arguments line)) rest := by
  obtain ⟨_, _, fits, normalArguments⟩ := normal
  rw [Expression.listNormal_iff] at normalArguments
  have counted := length_le_joinedByCommas arguments Expression.tokens_length_pos
  refine reads_callStep_some_iff.mpr
    ⟨_, arguments, ofSymbol .rightParen line, ⟨_, rfl, rfl⟩, ?_, rfl, rfl⟩
  refine list_complete (fun value member behind ends => ?_) (fun value member behind closes => ?_) fits
    (by omega) rfl
  · have := length_item_le_joinedByCommas Expression.tokens member
    refine complete value behind (normalArguments value member) (Nat.zero_le _) (by omega)
      (endsExpression_of_mark ?_)
    rcases ends with comma | closing
    · simp [comma]
    · simp [closing]
  · have starts := (front_expression value (normalArguments value member) behind).1
    rw [closes] at starts
    exact absurd starts (by decide)

/-- Down the callees of a call there is a primary expression from which the call grows. -/
theorem callee_grows {limit bound : Nat} {nested : Parser (Expression Unit)}
    (complete : CompleteExpression 0 limit EndsExpression nested) (enough : limit ≤ bound)
    {value : Expression Unit} (normal : value.Normal) (tight : callRank ≤ value.rank)
    (short : value.tokens.length ≤ limit + 1) (rest : List Token) :
    ∃ callee between steps, (primaryRule nested).Reads (value.tokens ++ rest) callee between ∧
      Grown (callStep nested bound) steps callee between value rest ∧ steps < value.tokens.length := by
  induction size : value.tokens.length using Nat.strongRecOn generalizing value rest with
  | ind size inductionHypothesis =>
      subst size
      rcases primary_or_call tight with primary | ⟨callee, arguments, line, rfl⟩
      · exact ⟨value, rest, 0, primaryRule_complete complete value rest normal primary short trivial,
          Grown.refl value rest, value.tokens_length_pos⟩
      · have written : (Expression.call callee arguments line).tokens = callee.tokens ++
            unplaced .leftParen :: (joinedByCommas (arguments.map Expression.tokens) ++
              [ofSymbol .rightParen line]) := by
          rw [Expression.tokens, Expression.eachTokens_eq_map]
        have length := congrArg List.length written
        simp only [List.length_append, List.length_cons, List.length_nil] at length
        have positive := callee.tokens_length_pos
        obtain ⟨first, between, steps, reads, grown, few⟩ := inductionHypothesis _ (by omega)
          normal.2.1 normal.1 (by omega) (unplaced .leftParen ::
            (joinedByCommas (arguments.map Expression.tokens) ++ ofSymbol .rightParen line :: rest)) rfl
        refine ⟨first, between, steps + 1, ?_, ?_, by omega⟩
        · simpa [written] using reads
        · exact grown.step (callStep_complete complete normal (by omega) enough)

theorem callRule_complete {limit : Nat} {nested : Parser (Expression Unit)}
    (complete : CompleteExpression 0 limit EndsExpression nested) :
    CompleteExpression callRank (limit + 1) EndsOperand (callRule nested (limit + 1)) := by
  intro value rest normal tight short ends
  obtain ⟨callee, between, steps, reads, grown, few⟩ :=
    callee_grows complete (Nat.le_succ limit) normal tight short rest
  refine reads_callRule_iff.mpr ⟨callee, between, reads, grown.reads (by omega) ?_⟩
  exact reads_callStep_none_iff.mpr ⟨rfl, ends⟩

/-- From the rank of operators on one operand on, an expression has such an operator or is tighter. -/
theorem unary_or_tighter {value : Expression Unit} (tight : unaryRank ≤ value.rank) :
    callRank ≤ value.rank ∨ ∃ operator line operand, value = .unary operator line operand := by
  cases value with
  | unary operator line operand => exact .inr ⟨operator, line, operand, rfl⟩
  | constant | grouping | «variable» | call => exact .inl (by simp [Expression.rank, callRank, primaryRank])
  | binary operator line left right =>
      cases operator <;> simp [Expression.rank, unaryRank, BinaryOperator.level, Level.rank] at tight
  | logical operator line left right =>
      cases operator <;> simp [Expression.rank, unaryRank, LogicalOperator.level, Level.rank] at tight
  | assignment => simp [Expression.rank, unaryRank] at tight

theorem unaryRule_complete {limit : Nat} {nestedUnary nested : Parser (Expression Unit)}
    (completeUnary : CompleteExpression unaryRank limit EndsOperand nestedUnary)
    (complete : CompleteExpression 0 limit EndsExpression nested) :
    CompleteExpression unaryRank (limit + 1) EndsOperand (unaryRule nestedUnary nested (limit + 1)) := by
  intro value rest normal tight short ends
  rcases unary_or_tighter tight with call | ⟨operator, line, operand, rfl⟩
  · refine reads_unaryRule_iff.mpr (.inr ⟨fun operator same => ?_,
      callRule_complete complete value rest normal call short ends⟩)
    have starts := (front_expression value normal rest).2 call
    rw [same] at starts
    cases operator <;> exact absurd starts (by decide)
  · refine reads_unaryRule_iff.mpr (.inl ⟨_, _, operator, operand, rfl, rfl, ?_, rfl⟩)
    exact completeUnary operand rest normal.2 normal.1 (by simpa [Expression.tokens] using short) ends

/-! ## Levels -/

/-- An expression of the rank of a level is built by a token of that level, which stands between its
operands. -/
theorem exists_build_of_rank {level : Level} {value : Expression Unit}
    (rank : value.rank = level.rank) :
    ∃ token build left right, level.build? token = some build ∧ value = build left right ∧
      value.tokens = left.tokens ++ token :: right.tokens := by
  have same {level' : Level} (equal : level'.rank = level.rank) : level' = level := by
    cases level <;> cases level' <;> first | rfl | exact absurd equal (by decide)
  cases value with
  | binary operator line left right =>
      exact ⟨_, _, left, right, Level.build?_eq_some_iff.mpr (.inr ⟨operator, same rank, rfl, rfl⟩),
        rfl, rfl⟩
  | logical operator line left right =>
      exact ⟨_, _, left, right, Level.build?_eq_some_iff.mpr (.inl ⟨operator, same rank, rfl, rfl⟩),
        rfl, rfl⟩
  | _ => cases level <;> exact absurd rank (by simp [Expression.rank, primaryRank, callRank, unaryRank,
      Level.rank])

/-- Down the left operands of a level there is a tighter operand from which an expression grows. -/
theorem operand_grows {limit bound : Nat} {operand : Parser (Expression Unit)} {level : Level}
    {tighter : List Level} (other : level ∉ tighter)
    (complete : CompleteExpression (level.rank + 1) limit (EndsLevels tighter)
      (operatorsRule operand bound tighter))
    {value : Expression Unit} (normal : value.Normal) (tight : level.rank ≤ value.rank)
    (short : value.tokens.length ≤ limit) {rest : List Token}
    (ends : EndsLevels tighter (front rest)) :
    ∃ first between steps,
      (operatorsRule operand bound tighter).Reads (value.tokens ++ rest) first between ∧
        Grown (operatorStep level (operatorsRule operand bound tighter)) steps first between value rest ∧
        steps < value.tokens.length := by
  induction size : value.tokens.length using Nat.strongRecOn generalizing value rest with
  | ind size inductionHypothesis =>
      subst size
      rcases Nat.lt_or_eq_of_le tight with tighterValue | rank
      · exact ⟨value, rest, 0, complete value rest normal tighterValue short ends,
          Grown.refl value rest, value.tokens_length_pos⟩
      · obtain ⟨token, build, left, right, built, rfl, written⟩ := exists_build_of_rank rank.symm
        obtain ⟨tightLeft, tightRight, normalLeft, normalRight⟩ :=
          (Level.build?_normal_iff built left right).mp normal
        have length := congrArg List.length written
        simp only [List.length_append, List.length_cons] at length
        have positive := left.tokens_length_pos
        have hasKind := Level.build?_isSome_iff.mp
          (by simp [built] : (level.build? token).isSome = true)
        have endsLeft : EndsLevels tighter token.kind := by
          refine ⟨hasKind.endsOperand, fun level' member hasKind' => other ?_⟩
          rwa [hasKind.unique hasKind']
        have endsFront : EndsLevels tighter (front (token :: (right.tokens ++ rest))) := endsLeft
        obtain ⟨first, between, steps, reads, grown, few⟩ := inductionHypothesis _ (by omega)
          normalLeft tightLeft (by omega) endsFront rfl
        refine ⟨first, between, steps + 1, ?_, grown.step ?_, by omega⟩
        · simpa [written] using reads
        · refine reads_operatorStep_some_iff.mpr ⟨token, _, build, right, rfl, built, ?_, rfl⟩
          exact complete right rest normalRight tightRight (by omega) ends

theorem operatorsRule_complete {limit : Nat} {operand : Parser (Expression Unit)}
    (complete : CompleteExpression unaryRank limit EndsOperand operand) {levels : List Level}
    (ladder : Ladder levels) :
    CompleteExpression (ranksFrom levels) limit (EndsLevels levels)
      (operatorsRule operand limit levels) := by
  induction levels with
  | nil => exact fun value rest normal tight short ends => complete value rest normal tight short ends.1
  | cons level tighter inductionHypothesis =>
      obtain ⟨next, ladderTighter⟩ := ladder
      have completeTighter := inductionHypothesis ladderTighter
      rw [next] at completeTighter
      intro value rest normal tight short ends
      have endsTighter : EndsLevels tighter (front rest) :=
        ⟨ends.1, fun level member => ends.2 level (List.mem_cons_of_mem _ member)⟩
      obtain ⟨first, between, steps, reads, grown, few⟩ := operand_grows
        (ladderTighter.not_mem (by omega)) completeTighter normal tight short endsTighter
      refine reads_operatorsRule_cons_iff.mpr ⟨first, between, reads, grown.reads (by omega) ?_⟩
      exact reads_operatorStep_none_iff.mpr ⟨rfl, ends.2 level List.mem_cons_self⟩

/-- An expression is an assignment, or has at least the rank of the loosest operators. -/
theorem operators_or_assignment (value : Expression Unit) :
    1 ≤ value.rank ∨ ∃ name assigned, value = .assignment name () assigned := by
  cases value with
  | assignment name reference assigned => exact .inr ⟨name, assigned, rfl⟩
  | binary operator => exact .inl (by cases operator <;> exact Nat.le_of_ble_eq_true rfl)
  | logical operator => exact .inl (by cases operator <;> exact Nat.le_of_ble_eq_true rfl)
  | _ => exact .inl (Nat.le_of_ble_eq_true rfl)

theorem assignmentRule_complete {limit : Nat} {operand nested : Parser (Expression Unit)}
    (completeOperand : CompleteExpression unaryRank (limit + 1) EndsOperand operand)
    (complete : CompleteExpression 0 limit EndsExpression nested) :
    CompleteExpression 0 (limit + 1) EndsExpression (assignmentRule operand nested (limit + 1)) := by
  have levels := operatorsRule_complete completeOperand ladder_all
  intro value rest normal _ short ends
  refine reads_assignmentRule_iff.mpr ?_
  rcases operators_or_assignment value with operators | ⟨name, assigned, rfl⟩
  · exact .inl ⟨levels value rest normal operators short ends.1, ends.2⟩
  · simp only [Expression.tokens, List.length_cons] at short
    refine .inr ⟨name, unplaced .equal :: (assigned.tokens ++ rest), _, assigned, ?_, ⟨_, rfl, rfl⟩, ?_, rfl⟩
    · refine levels (.variable name ()) _ trivial (Nat.le_of_ble_eq_true rfl)
        (by simp [Expression.tokens]) ⟨?_, ?_⟩
      · simp [EndsOperand]
      · exact fun level _ => not_hasKind (by simp) level
    · exact complete assigned rest normal (Nat.zero_le _) (by omega) ends

/-- Every normal operand and expression is read where what follows ends it. -/
theorem unary_and_expression_complete (bound : Nat) :
    CompleteExpression unaryRank bound EndsOperand (unary bound) ∧
      CompleteExpression 0 bound EndsExpression (expression bound) := by
  induction bound with
  | zero =>
      have nothing (value : Expression Unit) (short : value.tokens.length ≤ 0) : False :=
        absurd value.tokens_length_pos (Nat.not_lt.mpr short)
      exact ⟨fun value _ _ _ short _ => (nothing value short).elim,
        fun value _ _ _ short _ => (nothing value short).elim⟩
  | succ bound inductionHypothesis =>
      have operands := unaryRule_complete inductionHypothesis.1 inductionHypothesis.2
      exact ⟨operands, assignmentRule_complete operands inductionHypothesis.2⟩

/-! ## Statements -/

/-- Whether a parser reads every normal statement that declares nothing, written in at most so many
tokens, where no `else` follows that would extend it. -/
def CompleteStatement (limit : Nat) (parser : Parser (Statement Unit)) : Prop :=
  ∀ value rest, value.Normal → value.isDeclaration = false → value.tokens.length ≤ limit →
    (value.endsOpen = true → front rest ≠ .keyword .elseWord) →
      parser.Reads (value.tokens ++ rest) value rest

/-- The same for statements that may declare something. -/
def CompleteDeclaration (limit : Nat) (parser : Parser (Option (Statement Unit))) : Prop :=
  ∀ value rest, value.Normal → value.tokens.length ≤ limit →
    (value.endsOpen = true → front rest ≠ .keyword .elseWord) →
      parser.Reads (value.tokens ++ rest) (some value) rest

/-- No expression begins with a kind that is not among those that begin one. -/
theorem front_expression_ne {value : Expression Unit} (normal : value.Normal) {kind : Token.Kind}
    (other : startsExpression kind = false) (rest : List Token) :
    front (value.tokens ++ rest) ≠ kind := by
  intro same
  have starts := (front_expression value normal rest).1
  rw [same, other] at starts
  exact absurd starts Bool.false_ne_true

/-- The token that a statement begins with, apart from the statements that are expressions. -/
def mark? : Statement Unit → Option Token.Kind
  | .expression _ => none
  | .print _ => some (.keyword .printWord)
  | .declaration _ _ => some (.keyword .varWord)
  | .function _ _ _ => some (.keyword .funWord)
  | .block _ => some .leftBrace
  | .conditional _ _ _ => some (.keyword .ifWord)
  | .loop _ _ => some (.keyword .whileWord)
  | .returning _ _ => some (.keyword .returnWord)

/-- A statement begins with its mark, or as an expression does. -/
theorem front_statement {value : Statement Unit} (normal : value.Normal) (rest : List Token) :
    mark? value = some (front (value.tokens ++ rest)) ∨
      (mark? value = none ∧ startsExpression (front (value.tokens ++ rest)) = true) := by
  cases value with
  | expression inner =>
      rw [Statement.tokens, List.append_assoc]
      exact .inr ⟨rfl, (front_expression inner normal _).1⟩
  | declaration name initializer => cases initializer <;> exact .inl rfl
  | conditional condition thenBranch elseBranch => cases elseBranch <;> exact .inl rfl
  | returning line result => cases result <;> exact .inl rfl
  | _ => exact .inl rfl

theorem front_statement_ne {value : Statement Unit} (normal : value.Normal) {kind : Token.Kind}
    (noMark : mark? value ≠ some kind) (noExpression : startsExpression kind = false)
    (rest : List Token) : front (value.tokens ++ rest) ≠ kind := by
  intro same
  rcases front_statement normal rest with isMark | ⟨_, starts⟩
  · rw [same] at isMark
    exact noMark isMark
  · rw [same, noExpression] at starts
    exact absurd starts Bool.false_ne_true

/-- No statement begins with a token that ends a block, continues a choice, or ends the input. -/
theorem mark?_ne (value : Statement Unit) :
    mark? value ≠ some .rightBrace ∧ mark? value ≠ some (.keyword .elseWord) ∧
      mark? value ≠ some .endOfInput := by
  cases value <;> simp [mark?]

/-- No plain statement begins with a word that declares something. -/
theorem mark?_ne_of_plain {value : Statement Unit} (plain : value.isDeclaration = false) :
    mark? value ≠ some (.keyword .funWord) ∧ mark? value ≠ some (.keyword .varWord) := by
  cases value <;> simp [mark?, Statement.isDeclaration] at plain ⊢

section Rules

variable {limit bound : Nat} {expression : Parser (Expression Unit)}
  {statement : Parser (Statement Unit)} {declaration : Parser (Option (Statement Unit))}
  {rest : List Token}

/-- An expression in front of a mark that ends it. -/
theorem reads_before (complete : CompleteExpression 0 limit EndsExpression expression)
    {value : Expression Unit} (normal : value.Normal) (short : value.tokens.length ≤ limit)
    {mark : Token.Kind} (ends : mark ∈ [.comma, .rightParen, .semicolon]) (rest : List Token) :
    expression.Reads (value.tokens ++ unplaced mark :: rest) value (unplaced mark :: rest) :=
  complete value (unplaced mark :: rest) normal (Nat.zero_le _) short (endsExpression_of_mark ends)

theorem semicolon_mem : Token.Kind.semicolon ∈ [Token.Kind.comma, .rightParen, .semicolon] := by simp

theorem rightParen_mem : Token.Kind.rightParen ∈ [Token.Kind.comma, .rightParen, .semicolon] := by simp

theorem expressionStatementRule_complete
    (complete : CompleteExpression 0 limit EndsExpression expression) {value : Expression Unit}
    (normal : value.Normal) (short : value.tokens.length ≤ limit) :
    (expressionStatementRule expression).Reads (value.tokens ++ unplaced .semicolon :: rest)
      (.expression value) rest := by
  rw [reads_expressionStatementRule_iff]
  have readsValue := reads_before complete normal short semicolon_mem rest
  exact ⟨value, _, readsValue, ⟨_, rfl, rfl⟩, rfl⟩

theorem printRule_complete (complete : CompleteExpression 0 limit EndsExpression expression)
    {value : Expression Unit} (normal : value.Normal) (short : value.tokens.length ≤ limit) :
    (printRule expression).Reads (value.tokens ++ unplaced .semicolon :: rest) (.print value)
      rest := by
  rw [reads_printRule_iff]
  have readsValue := reads_before complete normal short semicolon_mem rest
  exact ⟨value, _, readsValue, ⟨_, rfl, rfl⟩, rfl⟩

theorem returnRule_complete (complete : CompleteExpression 0 limit EndsExpression expression)
    {line : Nat} {result : Option (Expression Unit)} (normal : ∀ value ∈ result, value.Normal)
    (short : ∀ value ∈ result, value.tokens.length ≤ limit) :
    (returnRule expression line).Reads
      (result.elim [] Expression.tokens ++ unplaced .semicolon :: rest) (.returning line result)
      rest := by
  rw [reads_returnRule_iff]
  refine ⟨result, _, reads_optionalBefore_iff.mpr ?_, ⟨unplaced .semicolon, rfl, rfl⟩, rfl⟩
  cases result with
  | none => exact .inl ⟨rfl, rfl, rfl⟩
  | some value =>
      have readsValue := reads_before complete (normal value rfl) (short value rfl) semicolon_mem rest
      exact .inr ⟨front_expression_ne (normal value rfl) rfl _, value, readsValue, rfl⟩

theorem nameRule_complete (role : NameRole) (name : Name) :
    (nameRule role).Reads (name.token :: rest) name rest := by
  rw [reads_nameRule_iff]
  exact ⟨name.token, rfl, rfl, rfl⟩

theorem variableRule_complete (complete : CompleteExpression 0 limit EndsExpression expression)
    {name : Name} {initializer : Option (Expression Unit)}
    (normal : ∀ value ∈ initializer, value.Normal)
    (short : ∀ value ∈ initializer, value.tokens.length ≤ limit) :
    (variableRule expression).Reads
      (name.token :: (initializer.elim [] (unplaced .equal :: Expression.tokens ·) ++
        unplaced .semicolon :: rest)) (.declaration name initializer) rest := by
  rw [reads_variableRule_iff]
  refine ⟨name, _, nameRule_complete _ name, ?_⟩
  cases initializer with
  | none => exact .inl ⟨⟨unplaced .semicolon, rfl, rfl⟩, rfl⟩
  | some value =>
      have readsValue := reads_before complete (normal value rfl) (short value rfl) semicolon_mem rest
      exact .inr ⟨_, value, _, ⟨_, rfl, rfl⟩, readsValue, ⟨_, rfl, rfl⟩, rfl⟩

theorem whileRule_complete (complete : CompleteExpression 0 limit EndsExpression expression)
    (completeStatement : CompleteStatement limit statement) {condition : Expression Unit}
    {body : Statement Unit} (normal : (Statement.loop condition body).Normal)
    (shortCondition : condition.tokens.length ≤ limit) (shortBody : body.tokens.length ≤ limit)
    (ends : body.endsOpen = true → front rest ≠ .keyword .elseWord) :
    (whileRule expression statement).Reads (unplaced .leftParen ::
      (condition.tokens ++ unplaced .rightParen :: (body.tokens ++ rest))) (.loop condition body)
      rest := by
  have ⟨normalCondition, plain, normalBody⟩ := normal
  have readsCondition := reads_before complete normalCondition shortCondition rightParen_mem
    (body.tokens ++ rest)
  have readsBody := completeStatement body rest normalBody plain shortBody ends
  rw [reads_whileRule_iff]
  exact ⟨_, condition, _, _, body, ⟨_, rfl, rfl⟩, readsCondition, ⟨_, rfl, rfl⟩, readsBody, rfl⟩

theorem conditionalRule_complete (complete : CompleteExpression 0 limit EndsExpression expression)
    (completeStatement : CompleteStatement limit statement) {condition : Expression Unit}
    {thenBranch : Statement Unit} {elseBranch : Option (Statement Unit)}
    (normal : (Statement.conditional condition thenBranch elseBranch).Normal)
    (shortCondition : condition.tokens.length ≤ limit)
    (shortThen : thenBranch.tokens.length ≤ limit)
    (shortElse : ∀ branch ∈ elseBranch, branch.tokens.length ≤ limit)
    (ends : (Statement.conditional condition thenBranch elseBranch).endsOpen = true →
      front rest ≠ .keyword .elseWord) :
    (conditionalRule expression statement).Reads (unplaced .leftParen ::
      (condition.tokens ++ unplaced .rightParen :: (thenBranch.tokens ++
        (elseBranch.elim [] (unplaced (.keyword .elseWord) :: Statement.tokens ·) ++ rest))))
      (.conditional condition thenBranch elseBranch) rest := by
  rw [reads_conditionalRule_iff]
  cases elseBranch with
  | none =>
      have ⟨normalCondition, plain, normalThen⟩ := normal
      have readsCondition := reads_before complete normalCondition shortCondition rightParen_mem
        (thenBranch.tokens ++ rest)
      have readsThen := completeStatement thenBranch rest normalThen plain shortThen
        fun _ => ends rfl
      exact ⟨_, condition, _, _, thenBranch, rest, ⟨_, rfl, rfl⟩, readsCondition, ⟨_, rfl, rfl⟩,
        readsThen, .inl ⟨ends rfl, rfl, rfl⟩⟩
  | some elseBranch =>
      have ⟨normalCondition, ⟨plainThen, closed, normalThen⟩, plainElse, normalElse⟩ := normal
      have readsCondition := reads_before complete normalCondition shortCondition rightParen_mem
        (thenBranch.tokens ++ unplaced (.keyword .elseWord) :: (elseBranch.tokens ++ rest))
      -- The first branch cannot be extended, so the `else` behind it is left for this choice.
      have readsThen := completeStatement thenBranch
        (unplaced (.keyword .elseWord) :: (elseBranch.tokens ++ rest)) normalThen plainThen shortThen
        fun isOpen => absurd (closed.symm.trans isOpen) Bool.false_ne_true
      have readsElse := completeStatement elseBranch rest normalElse plainElse
        (shortElse elseBranch rfl) ends
      exact ⟨_, condition, _, _, thenBranch, _, ⟨_, rfl, rfl⟩, readsCondition, ⟨_, rfl, rfl⟩,
        readsThen, .inr ⟨_, elseBranch, ⟨_, rfl, rfl⟩, readsElse, rfl⟩⟩

theorem many_complete (complete : CompleteDeclaration limit declaration)
    {stop : List Token → Bool}
    (goesOn : ∀ (value : Statement Unit) behind, value.Normal → stop (value.tokens ++ behind) = false)
    {items : List (Statement Unit)} (normal : Statement.listNormal items)
    (short : (Statement.listTokens items).length ≤ limit) (enough : items.length ≤ bound)
    (stops : stop rest = true) (noElse : front rest ≠ .keyword .elseWord) :
    (many declaration stop bound).Reads (Statement.listTokens items ++ rest) items rest := by
  induction items generalizing bound with
  | nil =>
      cases bound with
      | zero => exact reads_pure_iff.mpr ⟨rfl, rfl⟩
      | succ bound => exact reads_many_iff.mpr (.inl ⟨stops, rfl, rfl⟩)
  | cons first later inductionHypothesis =>
      have ⟨normalFirst, normalLater⟩ := normal
      rw [Statement.listTokens, List.length_append] at short
      cases bound with
      | zero => simp at enough
      | succ bound =>
          have behind : front (Statement.listTokens later ++ rest) ≠ .keyword .elseWord := by
            cases later with
            | nil => exact noElse
            | cons second others =>
                rw [Statement.listTokens, List.append_assoc]
                exact front_statement_ne normalLater.1 (mark?_ne second).2.1 rfl _
          have readsFirst := complete first (Statement.listTokens later ++ rest) normalFirst
            (by omega) fun _ => behind
          have readsLater := inductionHypothesis normalLater (by omega)
            (by simpa using enough : later.length ≤ bound)
          rw [reads_many_iff, Statement.listTokens, List.append_assoc]
          exact .inr ⟨goesOn first _ normalFirst, some first, _, later, readsFirst, readsLater, rfl⟩

theorem length_le_listTokens (items : List (Statement Unit)) :
    items.length ≤ (Statement.listTokens items).length := by
  induction items with
  | nil => exact Nat.zero_le _
  | cons first later inductionHypothesis =>
      have positive := first.tokens_length_pos
      simp only [Statement.listTokens, List.length_append, List.length_cons]
      omega

theorem blockRule_complete (complete : CompleteDeclaration limit declaration)
    (enough : limit ≤ bound) {items : List (Statement Unit)} (normal : Statement.listNormal items)
    (short : (Statement.listTokens items).length ≤ limit) :
    (blockRule declaration bound).Reads
      (Statement.listTokens items ++ unplaced .rightBrace :: rest) items rest := by
  have goesOn (value : Statement Unit) (behind : List Token) (normalValue : value.Normal) :
      atBlockEnd (value.tokens ++ behind) = false := by
    have noBrace := front_statement_ne normalValue (mark?_ne value).1 rfl behind
    have noEnd := front_statement_ne normalValue (mark?_ne value).2.2 rfl behind
    simpa [atBlockEnd, atEnd, front] using And.intro noBrace noEnd
  have counted := length_le_listTokens items
  rw [reads_blockRule_iff]
  refine ⟨unplaced .rightBrace :: rest, ?_, ⟨_, rfl, rfl⟩⟩
  exact many_complete complete goesOn normal short (by omega) rfl (by simp)

theorem functionRule_complete (complete : CompleteDeclaration limit declaration)
    (enough : limit ≤ bound) {name : Name} {parameters : List Name} {body : List (Statement Unit)}
    (normal : (Statement.function name parameters body).Normal)
    (counted : parameters.length ≤ bound) (short : (Statement.listTokens body).length ≤ limit) :
    (functionRule declaration bound).Reads (name.token :: unplaced .leftParen ::
      (joinedByCommas (parameters.map fun parameter => [parameter.token]) ++
        unplaced .rightParen :: unplaced .leftBrace ::
          (Statement.listTokens body ++ unplaced .rightBrace :: rest)))
      (.function name parameters body) rest := by
  rw [reads_functionRule_iff]
  refine ⟨name, _, _, parameters, _, _, _, body, nameRule_complete _ name, ⟨_, rfl, rfl⟩,
    ?_, ⟨unplaced .rightParen, rfl, rfl⟩, ⟨unplaced .leftBrace, rfl, rfl⟩,
    blockRule_complete complete enough normal.2 short, rfl⟩
  exact list_complete (fun parameter _ _ _ => nameRule_complete _ parameter) (fun _ _ _ => by simp)
    normal.1 counted rfl

end Rules

/-! ## The nesting of statements -/

theorem front_notMem_statementMarks {value : Expression Unit} (normal : value.Normal)
    (rest : List Token) : front (value.tokens ++ rest) ∉ statementMarks := by
  intro member
  have starts := (front_expression value normal rest).1
  simp only [statementMarks, List.mem_cons, List.not_mem_nil, or_false] at member
  rcases member with same | same | same | same | same | same
  -- An expression that begins with a brace is as impossible as one that begins with a word.
  all_goals
    rw [same] at starts
    exact absurd starts (by decide)

theorem statement_complete {limit : Nat}
    (completeStatement : CompleteStatement limit (statement limit))
    (completeDeclaration : CompleteDeclaration limit (declaration limit)) :
    CompleteStatement (limit + 1) (statement (limit + 1)) := by
  intro value rest normal plain short ends
  have complete := (unary_and_expression_complete (limit + 1)).2
  have completeNested : CompleteExpression 0 limit EndsExpression (expression (limit + 1)) :=
    fun value rest normal tight short => complete value rest normal tight (Nat.le_succ_of_le short)
  rw [reads_statement_iff]
  cases value with
  | expression inner =>
      simp only [Statement.tokens, List.append_assoc, List.cons_append, List.nil_append,
        List.length_append, List.length_cons, List.length_nil] at short ⊢
      exact .expression (front_notMem_statementMarks normal _)
        (expressionStatementRule_complete completeNested normal (by omega))
  | print inner =>
      simp only [Statement.tokens, List.append_assoc, List.cons_append, List.nil_append,
        List.length_append, List.length_cons, List.length_nil] at short ⊢
      exact .print _ ⟨_, rfl, rfl⟩ (printRule_complete completeNested normal (by omega))
  | declaration name initializer => simp [Statement.isDeclaration] at plain
  | function name parameters body => simp [Statement.isDeclaration] at plain
  | block items =>
      simp only [Statement.tokens, List.append_assoc, List.cons_append, List.nil_append,
        List.length_append, List.length_cons, List.length_nil] at short ⊢
      exact .block _ items ⟨_, rfl, rfl⟩
        (blockRule_complete completeDeclaration (Nat.le_succ limit) normal (by omega)) rfl
  | conditional condition thenBranch elseBranch =>
      have shortParts : condition.tokens.length ≤ limit ∧ thenBranch.tokens.length ≤ limit ∧
          ∀ branch ∈ elseBranch, branch.tokens.length ≤ limit := by
        cases elseBranch <;> simp [Statement.tokens] at short ⊢ <;> omega
      have rule := conditionalRule_complete completeNested completeStatement normal shortParts.1
        shortParts.2.1 shortParts.2.2 ends
      refine .conditional _ ⟨unplaced (.keyword .ifWord), ?_, rfl⟩ rule
      cases elseBranch <;> simp [Statement.tokens]
  | loop condition body =>
      simp only [Statement.tokens, List.append_assoc, List.cons_append, List.length_append,
        List.length_cons] at short ⊢
      exact .loop _ ⟨_, rfl, rfl⟩
        (whileRule_complete completeNested completeStatement normal (by omega) (by omega) ends)
  | returning line result =>
      have shortResult : ∀ value ∈ result, value.tokens.length ≤ limit := by
        cases result <;> simp [Statement.tokens] at short ⊢
        omega
      refine .returning (ofSymbol (.keyword .returnWord) line) _ ?_ rfl
        (returnRule_complete completeNested normal shortResult)
      cases result <;> simp [Statement.tokens]

theorem declaration_complete {limit : Nat}
    (completeStatement : CompleteStatement (limit + 1) (statement (limit + 1)))
    (completeDeclaration : CompleteDeclaration limit (declaration limit)) :
    CompleteDeclaration (limit + 1) (declaration (limit + 1)) := by
  intro value rest normal short ends
  rw [reads_declaration_iff]
  refine ⟨value, rfl, ?_⟩
  by_cases plain : value.isDeclaration = false
  · have noWord := mark?_ne_of_plain plain
    have reads := completeStatement value rest normal plain short ends
    exact .inr (.inr ⟨front_statement_ne normal noWord.1 rfl rest,
      front_statement_ne normal noWord.2 rfl rest, reads⟩)
  · cases value with
    | function name parameters body =>
        have single (parameter : Name) : 0 < [parameter.token].length := Nat.one_pos
        have counted := length_le_joinedByCommas parameters single
        simp only [Statement.tokens, List.append_assoc, List.cons_append, List.nil_append,
          List.length_append, List.length_cons, List.length_nil] at short ⊢
        exact .inl ⟨_, ⟨_, rfl, rfl⟩, functionRule_complete completeDeclaration (Nat.le_succ limit)
          normal (by omega) (by omega)⟩
    | declaration name initializer =>
        have complete := (unary_and_expression_complete (limit + 1)).2
        have shortInitializer : ∀ value ∈ initializer, value.tokens.length ≤ limit + 1 := by
          cases initializer <;> simp [Statement.tokens] at short ⊢
          omega
        refine .inr (.inl ⟨_, ⟨unplaced (.keyword .varWord), ?_, rfl⟩, variableRule_complete complete
          (by simpa [Statement.Normal] using normal) shortInitializer⟩)
        cases initializer <;> simp [Statement.tokens]
    | _ => exact absurd rfl plain

/-- Every normal statement and declaration is read where what follows does not extend it. -/
theorem statement_and_declaration_complete (bound : Nat) :
    CompleteStatement bound (statement bound) ∧ CompleteDeclaration bound (declaration bound) := by
  induction bound with
  | zero =>
      have nothing (value : Statement Unit) (short : value.tokens.length ≤ 0) : False :=
        absurd value.tokens_length_pos (Nat.not_lt.mpr short)
      exact ⟨fun value _ _ _ short _ => (nothing value short).elim,
        fun value _ _ short _ => (nothing value short).elim⟩
  | succ bound inductionHypothesis =>
      have statements := statement_complete inductionHypothesis.1 inductionHypothesis.2
      exact ⟨statements, declaration_complete statements inductionHypothesis.2⟩

/-! ## Programs -/

/-- A normal program is read from the tokens that write it, in front of the closing token. -/
theorem read_tokens {statements : List (Statement Unit)} (normal : Statement.listNormal statements)
    {last : Token} (isLast : last.kind = .endOfInput) :
    read (Statement.listTokens statements ++ [last]) = ⟨statements, []⟩ := by
  have goesOn (value : Statement Unit) (behind : List Token) (normalValue : value.Normal) :
      atEnd (value.tokens ++ behind) = false := by
    have noEnd := front_statement_ne normalValue (mark?_ne value).2.2 rfl behind
    simpa [atEnd, front] using noEnd
  have counted := length_le_listTokens statements
  have complete := (statement_and_declaration_complete
    (Statement.listTokens statements ++ [last]).length).2
  rw [read_eq_iff]
  refine ⟨[last], many_complete complete goesOn normal ?_ ?_ ?_ ?_⟩
  · simp
  · simp only [List.length_append]
    omega
  · simp [atEnd, currentToken, isLast]
  · simp [isLast]

end LoxInterpreter.Grammar
