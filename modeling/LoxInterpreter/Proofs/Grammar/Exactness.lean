import LoxInterpreter.Proofs.Grammar.Completeness
import LoxInterpreter.Proofs.Grammar.Soundness

/-!
Contract: the parser accepts its grammar, no more and no less.

Reading and writing are inverse to each other on normal programs. The trees keep the lines of their
names, operators and closing parentheses, so they come back as they were; tokens come back up to their
positions.

Owns: `read_exact`.
Does not own: the two directions (`Proofs.Grammar.Completeness`, `Proofs.Grammar.Soundness`).
-/

namespace LoxInterpreter.Grammar

open Token

/-- A normal program is read back from the tokens that write it, with no mistake; and what is read
from complete tokens with no mistake is normal and, unless a loop with three clauses was among it,
writes the same tokens. -/
theorem read_exact :
    (∀ (statements : List (Statement Unit)) (line : Nat), Statement.listNormal statements →
      read (Statement.listTokens statements ++ [closing line]) = ⟨statements, []⟩) ∧
    ∀ (body : List Token) (last : Token), Inner body → last.kind = .endOfInput →
      (read (body ++ [last])).errors = [] →
        Statement.listNormal (read (body ++ [last])).statements ∧
        (NoThreeClauses body → SameContent (body ++ [last])
          (Statement.listTokens (read (body ++ [last])).statements ++ [closing last.line])) := by
  constructor
  · intro statements line normal
    exact read_tokens normal rfl
  · intro body last inner isLast noMistake
    refine ⟨read_normal noMistake, fun none => ?_⟩
    have written := read_written inner isLast none noMistake
    have sameLast : SameContent [last] [closing last.line] :=
      SameContent.cons (content_eq_of_kind isLast (by rw [isLast]; decide)) (SameContent.refl [])
    exact written.append sameLast

/-- `!nil;` is such a program: it is read from its tokens, and what is read is written with them. -/
theorem read_exact_not_nil :
    let program : List (Statement Unit) := [.expression (.unary .not 1 (.constant .nil))]
    let body : List Token := [ofSymbol .bang 1, ofSymbol (.keyword .nilWord) 0, ofSymbol .semicolon 0]
    read (body ++ [closing 1]) = ⟨program, []⟩ ∧ Statement.listNormal program ∧
      SameContent (body ++ [closing 1]) (Statement.listTokens program ++ [closing 1]) := by
  intro program body
  have normal : Statement.listNormal program := by
    simp [program, Statement.listNormal, Statement.Normal, Expression.Normal, Expression.rank,
      unaryRank, primaryRank]
  have reads : read (body ++ [closing 1]) = ⟨program, []⟩ := read_exact.1 program 1 normal
  have inner : Inner body := by simp [body]
  have none : NoThreeClauses body := by simp [body, NoThreeClauses]
  have both := read_exact.2 body (closing 1) inner rfl (by rw [reads])
  rw [reads] at both
  exact ⟨reads, both.1, both.2 none⟩

end LoxInterpreter.Grammar
