import LoxInterpreter.Proofs.Grammar.Completeness

/-!
Contract: two expressions in a row that are one expression.

Where the second of two expressions begins with a parenthesis or a minus sign, the tokens of both in a row
are those of one: the parenthesis calls, and the sign subtracts. What is added behind an expression goes
down its last operands to the first that is tight enough for it.

Owns: `Extends`, `exists_extension` and `exists_merged`.
Does not own: that one expression is read from these tokens (`Proofs.Grammar.Completeness`).
-/

namespace LoxInterpreter.Grammar

open Token

/-- Whether an expression is another one with some tokens behind it. It binds as tightly as the other,
unless what was added binds less tightly. -/
structure Extends (rank : Nat) (suffix : List Token) (left joined : Expression Unit) : Prop where
  normal : joined.Normal
  tight : min left.rank rank ≤ joined.rank
  written : joined.tokens = left.tokens ++ suffix

/-- What can be added behind every expression that is tight enough can be added behind every expression:
where it is not tight enough itself, behind its last operand. -/
theorem exists_extension {rank : Nat} {suffix : List Token} (loose : rank ≤ callRank)
    (graft : ∀ left : Expression Unit, left.Normal → rank ≤ left.rank →
      ∃ joined, Extends rank suffix left joined) :
    (left : Expression Unit) → left.Normal → ∃ joined, Extends rank suffix left joined
  | .constant value, normal => graft _ normal (Nat.le_succ_of_le loose)
  | .grouping inner, normal => graft _ normal (Nat.le_succ_of_le loose)
  | .variable name reference, normal => graft _ normal (Nat.le_succ_of_le loose)
  | .call callee arguments line, normal => graft _ normal loose
  | .assignment name reference value, normal => by
      obtain ⟨joined, extended⟩ := exists_extension loose graft value normal
      refine ⟨.assignment name reference joined, extended.normal, ?_, ?_⟩
      · exact Nat.min_le_left _ _
      · simp [Expression.tokens, extended.written]
  | .unary operator line operand, normal => by
      by_cases tight : rank ≤ unaryRank
      · exact graft _ normal tight
      · have ⟨tightOperand, normalOperand⟩ := normal
        obtain ⟨joined, extended⟩ := exists_extension loose graft operand normalOperand
        have tightJoined : unaryRank ≤ joined.rank :=
          Nat.le_trans (Nat.le_min.mpr ⟨tightOperand, Nat.le_of_not_le tight⟩) extended.tight
        refine ⟨.unary operator line joined, ⟨tightJoined, extended.normal⟩, Nat.min_le_left _ _, ?_⟩
        simp [Expression.tokens, extended.written]
  | .binary operator line left right, normal => by
      by_cases tight : rank ≤ operator.level.rank
      · exact graft _ normal tight
      · have ⟨tightLeft, tightRight, normalLeft, normalRight⟩ := normal
        obtain ⟨joined, extended⟩ := exists_extension loose graft right normalRight
        have tightJoined : operator.level.rank < joined.rank :=
          Nat.lt_of_lt_of_le (Nat.lt_min.mpr ⟨tightRight, Nat.lt_of_not_le tight⟩) extended.tight
        refine ⟨.binary operator line left joined, ⟨tightLeft, tightJoined, normalLeft, extended.normal⟩,
          Nat.min_le_left _ _, ?_⟩
        simp [Expression.tokens, extended.written]
  | .logical operator line left right, normal => by
      by_cases tight : rank ≤ operator.level.rank
      · exact graft _ normal tight
      · have ⟨tightLeft, tightRight, normalLeft, normalRight⟩ := normal
        obtain ⟨joined, extended⟩ := exists_extension loose graft right normalRight
        have tightJoined : operator.level.rank < joined.rank :=
          Nat.lt_of_lt_of_le (Nat.lt_min.mpr ⟨tightRight, Nat.lt_of_not_le tight⟩) extended.tight
        refine ⟨.logical operator line left joined, ⟨tightLeft, tightJoined, normalLeft, extended.normal⟩,
          Nat.min_le_left _ _, ?_⟩
        simp [Expression.tokens, extended.written]

theorem Level.rank_le_callRank (level : Level) : level.rank ≤ callRank := by
  cases level <;> decide

section Extensions

variable {left : Expression Unit} (normalLeft : left.Normal)

include normalLeft

/-- An operator of arithmetic or comparison and its right operand, behind any expression. -/
theorem exists_binary {operator : BinaryOperator} (line : Nat) {right : Expression Unit}
    (tight : operator.level.rank < right.rank) (normal : right.Normal) :
    ∃ joined : Expression Unit, joined.Normal ∧
      joined.tokens = left.tokens ++ ofSymbol operator.kind line :: right.tokens := by
  have graft (left : Expression Unit) (normalLeft : left.Normal)
      (tightLeft : operator.level.rank ≤ left.rank) :
      ∃ joined, Extends operator.level.rank (ofSymbol operator.kind line :: right.tokens) left joined :=
    ⟨.binary operator line left right, ⟨tightLeft, tight, normalLeft, normal⟩, Nat.min_le_right _ _, rfl⟩
  obtain ⟨joined, extended⟩ := exists_extension operator.level.rank_le_callRank graft left normalLeft
  exact ⟨joined, extended.normal, extended.written⟩

/-- A logical operator and its right operand, behind any expression. -/
theorem exists_logical {operator : LogicalOperator} (line : Nat) {right : Expression Unit}
    (tight : operator.level.rank < right.rank) (normal : right.Normal) :
    ∃ joined : Expression Unit, joined.Normal ∧
      joined.tokens = left.tokens ++ ofSymbol operator.kind line :: right.tokens := by
  have graft (left : Expression Unit) (normalLeft : left.Normal)
      (tightLeft : operator.level.rank ≤ left.rank) :
      ∃ joined, Extends operator.level.rank (ofSymbol operator.kind line :: right.tokens) left joined :=
    ⟨.logical operator line left right, ⟨tightLeft, tight, normalLeft, normal⟩, Nat.min_le_right _ _, rfl⟩
  obtain ⟨joined, extended⟩ := exists_extension operator.level.rank_le_callRank graft left normalLeft
  exact ⟨joined, extended.normal, extended.written⟩

/-- Parentheses with arguments, behind any expression. -/
theorem exists_call {arguments : List (Expression Unit)} (line : Nat) (few : arguments.length ≤ itemLimit)
    (normal : Expression.listNormal arguments) :
    ∃ joined : Expression Unit, joined.Normal ∧ joined.tokens = left.tokens ++ unplaced .leftParen ::
      (joinedByCommas (Expression.eachTokens arguments) ++ [ofSymbol .rightParen line]) := by
  have graft (left : Expression Unit) (normalLeft : left.Normal) (tight : callRank ≤ left.rank) :
      ∃ joined, Extends callRank (unplaced .leftParen ::
        (joinedByCommas (Expression.eachTokens arguments) ++ [ofSymbol .rightParen line])) left joined :=
    ⟨.call left arguments line, ⟨tight, normalLeft, few, normal⟩, Nat.min_le_right _ _, rfl⟩
  obtain ⟨joined, extended⟩ := exists_extension (Nat.le_refl _) graft left normalLeft
  exact ⟨joined, extended.normal, extended.written⟩

end Extensions

/-- Two expressions in a row are one where the second begins with a parenthesis or a minus sign. -/
theorem exists_merged {first : Expression Unit} (normalFirst : first.Normal) :
    (second : Expression Unit) → second.Normal → (rest : List Token) →
      front (second.tokens ++ rest) ∈ [.leftParen, .minus] →
      ∃ joined : Expression Unit, joined.Normal ∧ joined.tokens = first.tokens ++ second.tokens
  | .constant value, _, _, begins => by
      cases value with
      | boolean truth => cases truth <;> exact absurd begins (by simp [Expression.tokens, Constant.token])
      | _ => exact absurd begins (by simp [Expression.tokens, Constant.token])
  | .variable _ _, _, _, begins => absurd begins (by simp [Expression.tokens])
  | .assignment _ _ _, _, _, begins => absurd begins (by simp [Expression.tokens])
  | .grouping inner, normal, _, _ => by
      have one : [inner].length ≤ itemLimit := Nat.le_of_ble_eq_true rfl
      exact exists_call normalFirst 0 one ⟨normal, trivial⟩
  | .unary operator line operand, ⟨tight, normal⟩, _, begins => by
      cases operator with
      | not => exact absurd begins (by simp [Expression.tokens, UnaryOperator.kind])
      | negate =>
          have tightOperand : BinaryOperator.subtract.level.rank < operand.rank :=
            Nat.lt_of_lt_of_le (by decide) tight
          exact exists_binary normalFirst line tightOperand normal
  | .binary operator line left right, ⟨_, tight, normalLeft, normalRight⟩, rest, begins => by
      rw [Expression.tokens, List.append_assoc] at begins
      obtain ⟨joined, normalJoined, written⟩ := exists_merged normalFirst left normalLeft _ begins
      obtain ⟨whole, normalWhole, writtenWhole⟩ := exists_binary normalJoined line tight normalRight
      refine ⟨whole, normalWhole, ?_⟩
      rw [writtenWhole, written, Expression.tokens, List.append_assoc]
  | .logical operator line left right, ⟨_, tight, normalLeft, normalRight⟩, rest, begins => by
      rw [Expression.tokens, List.append_assoc] at begins
      obtain ⟨joined, normalJoined, written⟩ := exists_merged normalFirst left normalLeft _ begins
      obtain ⟨whole, normalWhole, writtenWhole⟩ := exists_logical normalJoined line tight normalRight
      refine ⟨whole, normalWhole, ?_⟩
      rw [writtenWhole, written, Expression.tokens, List.append_assoc]
  | .call callee arguments line, ⟨_, normalCallee, few, normalArguments⟩, rest, begins => by
      rw [Expression.tokens, List.append_assoc] at begins
      obtain ⟨joined, normalJoined, written⟩ := exists_merged normalFirst callee normalCallee _ begins
      obtain ⟨whole, normalWhole, writtenWhole⟩ := exists_call normalJoined line few normalArguments
      refine ⟨whole, normalWhole, ?_⟩
      rw [writtenWhole, written, Expression.tokens, List.append_assoc]

end LoxInterpreter.Grammar
