import LoxInterpreter.Proofs.Grammar.Bounds
import LoxInterpreter.Proofs.Lines.Reading

/-!
Contract: what was read stays read, whatever comes behind it.

A program that reads without a mistake reads alike in front of any tokens that do not begin with an `else`.
What stands there is read as it is by itself: neither its statements nor its mistakes depend on what is in
front of it, and none of its mistakes reaches back.

Owns: `read_in_front`.
Does not own: that rules carry over a seam (`Proofs.Lines.Reading`), nor that bounds do not show
(`Proofs.Grammar.Bounds`).
-/

namespace LoxInterpreter.Grammar

open LoxInterpreter.Grammar.Parser Token

/-- Within any bounds that are not met, declarations are read as by themselves, with mistakes or without. -/
theorem declarations_eq_program {tokens : List Token} (complete : Complete tokens) {limit bound : Nat}
    (short : tokens.length ≤ limit) (enough : tokens.length ≤ bound) :
    many (declaration limit) atEnd bound tokens = program tokens.length tokens := by
  have settles := (Nesting.standard.settles_statement_and_declaration tokens.length
    (Nat.le_refl _) short).2
  have forward (tokens' : List Token) (inside : atEnd tokens' = false) :=
    declaration_length_lt tokens.length inside
  have same := (settles_many (fun _ _ => atEnd_eq) settles forward (Nat.le_refl _) enough tokens complete
    (Nat.le_refl _)).2.2 []
  rw [List.append_nil] at same
  refine (show many (declaration limit) atEnd bound tokens = _ from same).trans ?_
  simp [Reply.extend, program]

/-- Reading always replies with statements. -/
theorem value_program (tokens : List Token) :
    (program tokens.length tokens).value = some (read tokens).statements := by
  have forward (tokens' : List Token) (inside : atEnd tokens' = false) :=
    declaration_length_lt tokens.length inside
  obtain ⟨statements, isValue, _⟩ := many_ends (value_declaration tokens.length) forward
    (Nat.le_refl tokens.length) rfl
  have replied : (program tokens.length tokens).value = some statements := isValue
  rw [read, replied, Option.getD_some]

/-- The tokens of a program, in front of tokens that need be no program but do not begin with an `else`, are
read as the statements of the program, and behind them the tokens as by themselves: with the same statements,
and with the same mistakes. -/
theorem read_in_front {good tokens : List Token} {last : Token} (inner : Inner good)
    (isLast : last.kind = .endOfInput) (noMistake : (read (good ++ [last])).errors = [])
    (complete : Complete tokens) (noElse : front tokens ≠ .keyword .elseWord) :
    read (good ++ tokens) =
      ⟨(read (good ++ [last])).statements ++ (read tokens).statements, (read tokens).errors⟩ := by
  have unmoved : good.map (·.moveLine id) = good := List.map_id good
  have isNonempty : tokens ≠ [] := List.length_pos_iff.mp complete.length_pos
  let seam : Seam := ⟨id, last, tokens, isLast, isNonempty, noElse⟩
  have reads : read (good ++ [seam.last]) = ⟨(read (good ++ [last])).statements, []⟩ := by
    rw [← noMistake]
  have total : good.length + seam.more.length = (good ++ tokens).length := List.length_append.symm
  obtain ⟨within, enough, joined⟩ :=
    seam.declarations_joined inner reads (Nat.le_of_eq total) (Nat.le_of_eq total)
  have short : tokens.length ≤ (good ++ tokens).length := by simp
  have replies : program (good ++ tokens).length (good ++ tokens) =
      (program tokens.length tokens).behind (read (good ++ [last])).statements := by
    rw [unmoved, Statement.listMoveLines_id, declarations_eq_program complete short enough] at joined
    exact joined
  have statements := value_program tokens
  rw [read, replies, Reply.behind, statements, Option.map_some, Option.getD_some]
  rfl

/-- Two mistakes in a row, one of them behind an open block, leave the statement in front as it is. -/
theorem read_in_front_of_mistakes :
    let good : List Token := [ofSymbol (.keyword .ifWord) 1, ofSymbol .leftParen 1, ofSymbol (.keyword .nilWord) 1,
      ofSymbol .rightParen 1, ofSymbol (.keyword .nilWord) 1, ofSymbol .semicolon 1]
    let bad : List Token := [ofSymbol .leftBrace 2, ofSymbol .rightParen 2, ofSymbol .semicolon 2,
      ofSymbol (.keyword .trueWord) 3, ofSymbol .semicolon 3]
    let tokens := bad ++ [closing 4]
    Inner good ∧ (read (good ++ [closing 1])).errors = [] ∧ Complete tokens ∧
      front tokens ≠ .keyword .elseWord ∧
      read (good ++ tokens) =
        ⟨[.conditional (.constant .nil) (.expression (.constant .nil)) none],
          [⟨.missingExpression, ofSymbol .rightParen 2⟩, ⟨.missingMark .rightBrace .afterBlock, closing 4⟩]⟩ := by
  intro good bad tokens
  have inner : Inner good := by simp [good]
  have alone : read (good ++ [closing 1]) =
      ⟨[.conditional (.constant .nil) (.expression (.constant .nil)) none], []⟩ := by decide +kernel
  have mistaken : read tokens = ⟨[], [⟨.missingExpression, ofSymbol .rightParen 2⟩,
      ⟨.missingMark .rightBrace .afterBlock, closing 4⟩]⟩ := by decide +kernel
  have noMistake : (read (good ++ [closing 1])).errors = [] := by rw [alone]
  have complete : Complete tokens := complete_append (by simp [bad]) rfl
  have noElse : front tokens ≠ .keyword .elseWord := by decide
  have whole := read_in_front inner rfl noMistake complete noElse
  rw [alone, mistaken] at whole
  exact ⟨inner, noMistake, complete, noElse, whole⟩

end LoxInterpreter.Grammar
