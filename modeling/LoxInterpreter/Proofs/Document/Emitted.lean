import LoxInterpreter.CommandLine.Command
import LoxInterpreter.Proofs.Document.Written
import LoxInterpreter.Proofs.Grammar.Numerals

/-!
Contract: which trees are written as valid documents.

The document of a program holds the numbers of the program and no other reals. So what the command line writes
for a source denotes the document of the program that the source is read as, unless a numeral of the source is
too great for a double: it is read as infinity, is written as a word, and leaves no valid text.

Owns: `Tree.reals_programDocument`, and `Command.written_denotes`.
Does not own: what documents denote (`Proofs.Document.Written`).
-/

namespace LoxInterpreter

/-! ## The numbers of a document -/

section Numbers

variable {Known : Type}

/-- A construct holds what its fields hold. -/
@[simp] theorem Document.reals_construct (name : String) (fields : List (String × Document)) :
    (construct name fields).reals = fieldReals fields := rfl

@[simp] theorem Constant.reals_document (value : Constant) : value.document.reals = value.numbers := by
  cases value <;> rfl

@[simp] theorem Name.reals_document (name : Name) : name.document.reals = [] := rfl

mutual

theorem Expression.reals_document : (expression : Expression Known) →
    expression.document.reals = expression.numbers
  | .constant value => by simp [Expression.document, Expression.numbers]
  | .grouping inner => by simp [Expression.document, Expression.numbers, inner.reals_document]
  | .variable name _ => rfl
  | .assignment name _ value => by simp [Expression.document, Expression.numbers, value.reals_document]
  | .unary _ _ operand => by simp [Expression.document, Expression.numbers, operand.reals_document]
  | .binary _ _ left right => by
      simp [Expression.document, Expression.numbers, left.reals_document, right.reals_document]
  | .logical _ _ left right => by
      simp [Expression.document, Expression.numbers, left.reals_document, right.reals_document]
  | .call callee arguments _ => by
      simp [Expression.document, Expression.numbers, callee.reals_document,
        Expression.listReals_documents arguments]

theorem Expression.listReals_documents : (expressions : List (Expression Known)) →
    Document.listReals (Expression.documents expressions) = Expression.listNumbers expressions
  | [] => rfl
  | first :: rest => congrArg₂ (· ++ ·) first.reals_document (Expression.listReals_documents rest)

end

theorem Expression.reals_optionalDocument (expression : Option (Expression Known)) :
    (Expression.optionalDocument expression).reals = Expression.optionalNumbers expression := by
  cases expression with
  | none => rfl
  | some expression => exact expression.reals_document

theorem Name.listReals_strings (names : List Name) :
    Document.listReals (names.map fun name => .string name.text) = [] := by
  induction names with
  | nil => rfl
  | cons first rest inductionHypothesis => exact inductionHypothesis

mutual

theorem Statement.reals_document : (statement : Statement Known) →
    statement.document.reals = statement.numbers
  | .expression value => by simp [Statement.document, Statement.numbers, value.reals_document]
  | .print value => by simp [Statement.document, Statement.numbers, value.reals_document]
  | .declaration name initializer => by
      simp [Statement.document, Statement.numbers, Expression.reals_optionalDocument]
  | .function name parameters body => by
      simp [Statement.document, Statement.numbers, Name.listReals_strings, Statement.listReals_documents body]
  | .block items => by simp [Statement.document, Statement.numbers, Statement.listReals_documents items]
  | .conditional condition thenBranch none => by
      simp [Statement.document, Statement.numbers, condition.reals_document, thenBranch.reals_document]
  | .conditional condition thenBranch (some elseBranch) => by
      simp [Statement.document, Statement.numbers, condition.reals_document, thenBranch.reals_document,
        elseBranch.reals_document]
  | .loop condition body => by
      simp [Statement.document, Statement.numbers, condition.reals_document, body.reals_document]
  | .returning _ value => by simp [Statement.document, Statement.numbers, Expression.reals_optionalDocument]

theorem Statement.listReals_documents : (statements : List (Statement Known)) →
    Document.listReals (Statement.documents statements) = Statement.listNumbers statements
  | [] => rfl
  | first :: rest => congrArg₂ (· ++ ·) first.reals_document (Statement.listReals_documents rest)

end

/-- The document of a program holds the numbers of the program. -/
theorem Tree.reals_programDocument (program : List (Statement Known)) :
    (Tree.programDocument program).reals = Statement.listNumbers program :=
  Statement.listReals_documents program

end Numbers

/-! ## Sources of a single numeral -/

/-- A numeral in front of a semicolon is read as the statement of its value. -/
theorem Source.read_numeral {digits : List Char} (areDigits : Token.IsDigits digits) :
    (Source.text (String.ofList (digits ++ [';']))).read =
      .ok [.expression (.constant (.number (Number.Decimal.toFloat ⟨Token.digitsValue digits, 0⟩)))] := by
  obtain ⟨first, others, rfl⟩ := List.exists_cons_of_ne_nil areDigits.1
  have found : Token.Front.of first (others ++ [';']) =
      .token (Token.numberKind (first :: others) []) (first :: others) [';'] := by
    have isNumber : Token.Front.of first (others ++ [';']) = .number (first :: others ++ [';']) :=
      Token.Front.number_of_isDigits areDigits List.cons_append
    rw [isNumber, Token.Front.number, List.takeWhile_append_of_pos areDigits.2,
      List.dropWhile_append_of_pos areDigits.2]
    simp
  have sameLine : Token.lineAfter 1 (first :: others) = 1 := by
    have none : '\n' ∉ first :: others := fun member => absurd (areDigits.2 _ member) (by decide)
    rw [Token.lineAfter, List.count_eq_zero.mpr none]
  have isScan : (Source.text (String.ofList (first :: others ++ [';']))).scan =
      ⟨[⟨Token.numberKind (first :: others) [], String.ofList (first :: others), 1⟩, ⟨.semicolon, ";", 1⟩,
        ⟨.endOfInput, "", 1⟩], none⟩ := by
    have behind : Token.scanFrom 1 [';'] = ⟨[⟨.semicolon, ";", 1⟩, ⟨.endOfInput, "", 1⟩], none⟩ := by cbv
    rw [Source.scan, Token.scanText, String.toList_ofList, List.cons_append, Token.scanFrom_token found,
      sameLine, behind]
    rfl
  have isNumber : Token.numberKind (first :: others) [] =
      .number (Number.Decimal.toFloat ⟨Token.digitsValue (first :: others), 0⟩) := by
    rw [Token.numberKind, List.append_nil, List.length_nil, Nat.cast_zero, neg_zero]
  rw [isNumber] at isScan
  refine Session.read_eq_ok_iff.mpr ?_
  rw [isScan]
  generalize Number.Decimal.toFloat ⟨Token.digitsValue (first :: others), 0⟩ = value
  generalize String.ofList (first :: others) = lexeme
  exact ⟨rfl, by cbv⟩

/-! ## What is written for a source -/

namespace CommandLine.Command

theorem written_showTree {source : Source} {program : List (Statement Unit)} (reads : source.read = .ok program)
    (script : String) (coloured : Bool) :
    (showTree .document script coloured source).written =
      some (documentPath script, (Tree.programDocument program).text) := by
  obtain ⟨noMistake, isReading⟩ := Session.read_eq_ok_iff.mp reads
  unfold showTree
  simp only [noMistake, isReading]

/-- What is written for a source that is read without a mistake denotes the document of its program, and no
other one, if every number in it is finite. If one is not, what is written is no valid text. -/
theorem written_denotes {source : Source} {program : List (Statement Unit)} (reads : source.read = .ok program)
    (script : String) (coloured : Bool) :
    ∃ text, (showTree .document script coloured source).written = some (documentPath script, text) ∧
      ∀ document, Json.Denotes text document ↔
        (∀ value ∈ Statement.listNumbers program, value.isFinite = true) ∧
          document = Tree.programDocument program := by
  refine ⟨_, written_showTree reads script coloured, fun document => ?_⟩
  rw [Json.denotes_text, Json.Finite, Tree.reals_programDocument]

/-- A source of one numeral, and the number that stands in its document. -/
theorem written_denotes_numeral :
    ∃ program text, (Source.text "42;").read = .ok program ∧
      (showTree .document "a.lox" true (.text "42;")).written = some (documentPath "a.lox", text) ∧
      Json.Denotes text (Tree.programDocument program) := by
  have reads := Source.read_numeral (show Token.IsDigits ['4', '2'] from ⟨List.cons_ne_nil _ _, by simp⟩)
  obtain ⟨text, isWritten, denotes⟩ := written_denotes reads "a.lox" true
  refine ⟨_, text, reads, isWritten, (denotes _).mpr ⟨fun value member => ?_, rfl⟩⟩
  obtain rfl := List.mem_singleton.mp member
  exact (Number.Decimal.isFinite_toFloat _).mpr (by decide +kernel)

/-- A numeral of 310 digits leaves a text that is no valid one. -/
theorem written_of_great_numeral :
    ∃ program text, (Source.text (String.ofList (List.replicate 310 '9' ++ [';']))).read = .ok program ∧
      (showTree .document "a.lox" true (.text (String.ofList (List.replicate 310 '9' ++ [';'])))).written =
        some (documentPath "a.lox", text) ∧
      ¬ ∃ document, Json.Denotes text document := by
  have areDigits : Token.IsDigits (List.replicate 310 '9') :=
    ⟨mt (List.replicate_eq_nil_iff '9').mp (by omega), fun digit member => by
      rw [List.eq_of_mem_replicate member]
      decide⟩
  have reads := Source.read_numeral areDigits
  refine ⟨_, _, reads, written_showTree reads "a.lox" true, ?_⟩
  rintro ⟨document, denotes⟩
  have finite := (Json.denotes_text.mp denotes).1
  rw [Json.Finite, Tree.reals_programDocument] at finite
  have isFinite := (Number.Decimal.isFinite_toFloat _).mp (finite _ List.mem_cons_self)
  exact absurd isFinite (by decide +kernel)

end CommandLine.Command

end LoxInterpreter
