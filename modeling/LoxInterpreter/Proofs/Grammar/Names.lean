import LoxInterpreter.Program
import LoxInterpreter.Proofs.Grammar.Soundness
import LoxInterpreter.Proofs.Token.Words

/-!
Contract: the names that a program declares.

A name that a program declares outside all scopes stands in its source, so it is a word that other
sources can use.

Owns: `Statement.declaredName?`, `Source.isName_of_scan`, and the source that declares a name by
itself.
-/

namespace LoxInterpreter

variable {Known : Type}

/-- The name that a statement declares where it stands. -/
def Statement.declaredName? : Statement Known → Option String
  | .declaration name _ | .function name _ _ => some name.text
  | _ => none

theorem Statement.declaredName?_of_plain {statement : Statement Known}
    (plain : statement.isDeclaration = false) : statement.declaredName? = none := by
  cases statement with
  | declaration | function => cases plain
  | _ => rfl

namespace Grammar

open LoxInterpreter.Grammar.Parser

variable {tokens rest : List Token}

/-- Whether a name stands among tokens. -/
def Mentions (tokens : List Token) (name : String) : Prop :=
  ∃ token ∈ tokens, token.kind = .identifier ∧ token.lexeme = name

theorem Mentions.of_suffix {name : String} (mentions : Mentions rest name) (suffix : rest <:+ tokens) :
    Mentions tokens name := by
  have ⟨token, member, isToken⟩ := mentions
  exact ⟨token, suffix.subset member, isToken⟩

theorem mentions_nameRule {role : NameRole} {name : Name}
    (reads : (nameRule role).Reads tokens name rest) : Mentions tokens name.text := by
  have ⟨token, split, isIdentifier, isName⟩ := reads_nameRule_iff.mp reads
  rw [split, isName]
  exact ⟨token, List.mem_cons_self, isIdentifier, rfl⟩

theorem Takes.suffix {kind : Token.Kind} (takes : Takes kind tokens rest) : rest <:+ tokens := by
  have ⟨token, split, _⟩ := takes
  rw [split]
  exact List.suffix_cons token rest

/-- What a declaration declares stands among the tokens that it is read from. -/
theorem mentions_declaration {bound : Nat} (short : tokens.length ≤ bound)
    {result : Option (Statement Unit)} (reads : (declaration bound).Reads tokens result rest)
    {value : Statement Unit} (isValue : result = some value) {name : String}
    (declares : value.declaredName? = some name) : Mentions tokens name := by
  cases bound with
  | zero =>
      have ⟨value, _, stuck⟩ := (reads_recovering_iff (regular_fail _)).mp reads
      exact absurd stuck not_reads_fail
  | succ bound =>
      obtain ⟨value', isResult, alternatives⟩ := reads_declaration_iff.mp reads
      rw [isValue] at isResult
      cases isResult
      rcases alternatives with ⟨behind, word, rule⟩ | ⟨behind, word, rule⟩ | ⟨_, _, rule⟩
      · obtain ⟨_, _, _, _, _, _, _, _, readsName, _, _, _, _, _, built⟩ :=
          reads_functionRule_iff.mp rule
        rw [built] at declares
        cases declares
        exact (mentions_nameRule readsName).of_suffix word.suffix
      · obtain ⟨_, _, readsName, ⟨_, built⟩ | ⟨_, _, _, _, _, _, built⟩⟩ :=
          reads_variableRule_iff.mp rule
        · rw [built] at declares
          cases declares
          exact (mentions_nameRule readsName).of_suffix word.suffix
        · rw [built] at declares
          cases declares
          exact (mentions_nameRule readsName).of_suffix word.suffix
      · have ⟨soundStatement, soundDeclaration⟩ := statement_and_declaration_sound bound
        have ⟨plain, _⟩ := statementRule_sound soundStatement soundDeclaration short rule
        rw [Statement.declaredName?_of_plain plain] at declares
        cases declares

theorem mentions_many {limit bound : Nat} {stop : List Token → Bool} (short : tokens.length ≤ limit)
    {items : List (Statement Unit)} (reads : (many (declaration limit) stop bound).Reads tokens items rest)
    {statement : Statement Unit} (member : statement ∈ items) {name : String}
    (declares : statement.declaredName? = some name) : Mentions tokens name := by
  induction bound generalizing tokens items with
  | zero =>
      rw [(reads_pure_iff.mp reads).1] at member
      cases member
  | succ bound inductionHypothesis =>
      rcases reads_many_iff.mp reads with ⟨_, none, _⟩ | ⟨_, first, between, later, one, others, split⟩
      · rw [none] at member
        cases member
      · rw [split] at member
        rcases List.mem_append.mp member with isFirst | isLater
        · exact mentions_declaration short one (Option.mem_toList.mp isFirst) declares
        · have regular := (regular_statement_and_declaration limit).2
          have suffix : between <:+ tokens := by
            have left := regular.suffix tokens
            have replies : declaration limit tokens = ⟨some first, [], between⟩ := one
            rwa [replies] at left
          have shorter := suffix.length_le
          exact (inductionHypothesis (by omega) others isLater).of_suffix suffix

theorem mentions_read {program : List (Statement Unit)} (reads : read tokens = ⟨program, []⟩)
    {statement : Statement Unit} (member : statement ∈ program) {name : String}
    (declares : statement.declaredName? = some name) : Mentions tokens name := by
  have ⟨_, readsProgram⟩ := read_eq_iff.mp reads
  exact mentions_many (Nat.le_refl _) readsProgram member declares

end Grammar

namespace Source

theorem isName_of_scan (source : Source) {token : Token} (member : token ∈ source.scan.tokens)
    (isIdentifier : token.kind = .identifier) : Token.IsName token.lexeme.toList := by
  have ⟨_, emitted⟩ := Token.exists_text_of_emitted member
  exact Token.isName_of_scanFrom _ _ token emitted isIdentifier

/-- The source that declares a name, with the value of that name. -/
def declaringByItself (name : String) : Source := .text ("var " ++ name ++ " = " ++ name ++ ";")

theorem scan_declaringByItself {name : String} (isName : Token.IsName name.toList) :
    (declaringByItself name).scan =
      ⟨[⟨.keyword .varWord, "var", 1⟩, .ofName name 1, ⟨.equal, "=", 1⟩, .ofName name 1,
        ⟨.semicolon, ";", 1⟩, .closing 1], none⟩ := by
  have characters : ("var " ++ name ++ " = " ++ name ++ ";").toList =
      ['v', 'a', 'r'] ++ ' ' :: (name.toList ++ ' ' :: '=' :: ' ' :: (name.toList ++ ';' :: [])) := by
    simp [String.toList_append]
  have isWord : Token.IsWord ['v', 'a', 'r'] := by decide
  have reserved : Token.wordKind ['v', 'a', 'r'] = .keyword .varWord := by decide
  have ⟨isNameWord, isIdentifier⟩ := isName
  have stopsBlank : Token.isWordPart ' ' = false := by decide
  have stopsSemicolon : Token.isWordPart ';' = false := by decide
  have blank (rest : List Char) : Token.scanFrom 1 (' ' :: rest) = Token.scanFrom 1 rest :=
    @Token.scanFrom_gap ' ' rest [' '] rest rfl 1
  have equals (rest : List Char) : Token.scanFrom 1 ('=' :: ' ' :: rest) =
      (Token.scanFrom 1 (' ' :: rest)).prepend ⟨.equal, "=", 1⟩ :=
    @Token.scanFrom_token '=' (' ' :: rest) ['='] (' ' :: rest) .equal rfl 1
  have semicolon : Token.scanFrom 1 [';'] = (Token.scanFrom 1 []).prepend ⟨.semicolon, ";", 1⟩ :=
    @Token.scanFrom_token ';' [] [';'] [] .semicolon rfl 1
  unfold declaringByItself scan Token.scanText
  dsimp only
  rw [characters, Token.scanFrom_word isWord stopsBlank, blank, Token.scanFrom_word isNameWord stopsBlank,
    blank, equals, blank, Token.scanFrom_word isNameWord stopsSemicolon, semicolon, Token.scanFrom,
    reserved, isIdentifier, String.ofList_toList]
  rfl

theorem read_declaringByItself {name : String} (isName : Token.IsName name.toList) :
    (declaringByItself name).read =
      .ok [.declaration ⟨name, 1⟩ (some (.variable ⟨name, 1⟩ ()))] := by
  have parses : Grammar.read [⟨.keyword .varWord, "var", 1⟩, .ofName name 1, ⟨.equal, "=", 1⟩,
      .ofName name 1, ⟨.semicolon, ";", 1⟩, .closing 1] =
        ⟨[.declaration ⟨name, 1⟩ (some (.variable ⟨name, 1⟩ ()))], []⟩ := by
    cbv
  unfold read
  rw [scan_declaringByItself isName]
  dsimp only
  rw [parses]

end Source

end LoxInterpreter
