import LoxInterpreter.Proofs.Lines.Moving
import LoxInterpreter.Proofs.Token.Words

/-!
Contract: what is scanned line by line is scanned as a whole.

No piece of a text that is scanned to its end goes on over a line feed behind it, so the tokens of two
texts with a line feed between them are those of the one and, on later lines, those of the other.

Owns: `Scan.moveLines`, `scanFrom_moveLines`, `scanFrom_append`, and `Source.scan_joined`.
-/

namespace LoxInterpreter

/-- A lexical mistake on another line. -/
def LexicalError.moveLine (move : Nat → Nat) (error : LexicalError) : LexicalError :=
  { error with line := move error.line }

namespace Token

/-- A scan on other lines. -/
def Scan.moveLines (move : Nat → Nat) (scan : Scan) : Scan :=
  ⟨scan.tokens.map (·.moveLine move), scan.error.map (·.moveLine move)⟩

theorem lineAfter_add (line shift : Nat) (characters : List Char) :
    lineAfter (line + shift) characters = lineAfter line characters + shift := by
  unfold lineAfter
  omega

theorem lineAfter_append (line : Nat) (first second : List Char) :
    lineAfter line (first ++ second) = lineAfter (lineAfter line first) second := by
  unfold lineAfter
  rw [List.count_append, Nat.add_assoc]

/-- A text that begins some lines further down is scanned alike, on these lines. -/
theorem scanFrom_moveLines (line shift : Nat) (characters : List Char) :
    scanFrom (line + shift) characters = (scanFrom line characters).moveLines (· + shift) := by
  induction line, characters using scanFrom_induction with
  | stop line =>
      rw [scanFrom, scanFrom]
      rfl
  | gap line first rest taken after found inductionHypothesis =>
      rw [scanFrom_gap found, scanFrom_gap found, lineAfter_add]
      exact inductionHypothesis
  | token line first rest kind taken after found inductionHypothesis =>
      rw [scanFrom_token found, scanFrom_token found, lineAfter_add, inductionHypothesis]
      rfl
  | failure line first rest cause taken found =>
      rw [scanFrom_failure found, scanFrom_failure found, lineAfter_add]
      rfl

/-! ## Pieces in front of a line feed -/

section Delimited

variable {keep : Char → Bool} {next : Char}

theorem takeWhile_append_of_stop (stops : keep next = false) (text more : List Char) :
    (text ++ next :: more).takeWhile keep = text.takeWhile keep := by
  rw [List.takeWhile_append, List.takeWhile_cons_of_neg (by simp [stops]), List.append_nil]
  split
  · rename_i whole
    exact ((List.takeWhile_prefix keep).eq_of_length whole).symm
  · rfl

theorem dropWhile_append_of_stop (stops : keep next = false) (text more : List Char) :
    (text ++ next :: more).dropWhile keep = text.dropWhile keep ++ next :: more := by
  rw [List.dropWhile_append, List.dropWhile_cons_of_neg (by simp [stops])]
  split
  · rename_i whole
    rw [List.isEmpty_iff.mp whole, List.nil_append]
  · rfl

end Delimited

namespace Front

/-- The piece at the front of a text that goes on. -/
def before (more : List Char) : Front → Front
  | gap taken rest => .gap taken (rest ++ more)
  | token kind taken rest => .token kind taken (rest ++ more)
  | failure cause taken => .failure cause taken

variable {first next : Char} {rest : List Char}

/-- What separates is part of no mark, number or word. -/
theorem not_mem_pieces_of_isBlank (blank : isBlank next = true) :
    next ≠ '=' ∧ next ≠ '/' ∧ next ≠ '.' ∧ next.isDigit = false ∧ isWordPart next = false := by
  have cases : next = ' ' ∨ next = '\r' ∨ next = '\t' ∨ next = '\n' := by
    simpa [isBlank, or_assoc] using blank
  rcases cases with rfl | rfl | rfl | rfl <;> decide

theorem extensible_append (blank : isBlank next = true) (withEqual alone : Kind) (first : Char)
    (rest more : List Char) : extensible withEqual alone first (rest ++ next :: more) =
      (extensible withEqual alone first rest).before (next :: more) := by
  cases rest with
  | nil =>
      unfold extensible
      split
      · rename_i isEqual
        exact absurd (List.cons.inj isEqual).1 (not_mem_pieces_of_isBlank blank).1
      · rfl
  | cons character others =>
      by_cases same : character = '='
      · subst same
        rfl
      · unfold extensible
        split
        · rename_i isEqual
          exact absurd (List.cons.inj isEqual).1 same
        · split
          · rename_i isEqual
            exact absurd (List.cons.inj isEqual).1 same
          · rfl

/-- A comment goes on up to the line feed. Any other blank must have no comment in front of it. -/
theorem slash_append (blank : isBlank next = true)
    (stays : next = '\n' ∨ ∀ taken after, slash rest ≠ .gap taken after) (more : List Char) :
    slash (rest ++ next :: more) = (slash rest).before (next :: more) := by
  cases rest with
  | nil =>
      unfold slash
      split
      · rename_i isSlash
        exact absurd (List.cons.inj isSlash).1 (not_mem_pieces_of_isBlank blank).2.1
      · rfl
  | cons character others =>
      by_cases same : character = '/'
      · subst same
        rcases stays with rfl | noComment
        · have stops : (decide ('\n' ≠ '\n') : Bool) = false := by decide
          have taken := @takeWhile_append_of_stop (fun character => decide (character ≠ '\n')) '\n' stops
            others more
          have dropped := @dropWhile_append_of_stop (fun character => decide (character ≠ '\n')) '\n'
            stops others more
          simp only [slash, List.cons_append, before, taken, dropped]
        · exact absurd rfl (noComment _ _)
      · unfold slash
        split
        · rename_i isSlash
          exact absurd (List.cons.inj isSlash).1 same
        · split
          · rename_i isSlash
            exact absurd (List.cons.inj isSlash).1 same
          · rfl

/-- A string that ends is the same whatever comes behind it. -/
theorem string_append (ends : ∀ cause taken, string rest ≠ .failure cause taken) (more : List Char) :
    string (rest ++ more) = (string rest).before more := by
  unfold string at ends ⊢
  dsimp only at ends ⊢
  cases dropped : rest.dropWhile (· ≠ '"') with
  | nil =>
      rw [dropped] at ends
      exact absurd rfl (ends _ _)
  | cons quote after =>
      have shorter : (rest.takeWhile (· ≠ '"')).length ≠ rest.length := by
        have whole := congrArg List.length
          (List.takeWhile_append_dropWhile : rest.takeWhile (· ≠ '"') ++ rest.dropWhile (· ≠ '"') = rest)
        rw [dropped, List.length_append, List.length_cons] at whole
        omega
      have taken : (rest ++ more).takeWhile (· ≠ '"') = rest.takeWhile (· ≠ '"') := by
        rw [List.takeWhile_append, if_neg shorter]
      have left : (rest ++ more).dropWhile (· ≠ '"') = quote :: (after ++ more) := by
        rw [List.dropWhile_append, dropped]
        rfl
      rw [taken, left]
      rfl

theorem number_append (blank : isBlank next = true) (text more : List Char) :
    number (text ++ next :: more) = (number text).before (next :: more) := by
  have ⟨_, _, notPoint, notDigit, _⟩ := not_mem_pieces_of_isBlank blank
  have taken := takeWhile_append_of_stop notDigit text more
  have dropped := dropWhile_append_of_stop notDigit text more
  unfold number
  rw [taken, dropped]
  match text.dropWhile Char.isDigit with
  | [] => simp [before, notPoint]
  | [point] =>
      by_cases isPoint : point = '.'
      · subst isPoint
        simp [before, notDigit]
      · simp [before, isPoint]
  | point :: digit :: after =>
      by_cases isPoint : point = '.'
      · subst isPoint
        have more' := takeWhile_append_of_stop notDigit (digit :: after) more
        have rest' := dropWhile_append_of_stop notDigit (digit :: after) more
        rw [List.cons_append] at more' rest'
        simp only [List.cons_append, more', rest']
        split <;> rfl
      · simp [before, isPoint]

theorem word_append (blank : isBlank next = true) (text more : List Char) :
    word (text ++ next :: more) = (word text).before (next :: more) := by
  have ⟨_, _, _, _, notPart⟩ := not_mem_pieces_of_isBlank blank
  have taken := takeWhile_append_of_stop notPart text more
  have dropped := dropWhile_append_of_stop notPart text more
  simp only [word, taken, dropped, before]

/-- A piece that is no mistake is the same in front of a line feed, and a token is in front of any blank. -/
theorem of_append (blank : isBlank next = true) (first : Char) (rest more : List Char)
    (fits : ∀ cause taken, Front.of first rest ≠ .failure cause taken)
    (stays : next = '\n' ∨ ∀ taken after, Front.of first rest ≠ .gap taken after) :
    Front.of first (rest ++ next :: more) = (Front.of first rest).before (next :: more) := by
  have asSlash : singleMark? first = none → extensibleMark? first = none → first = '/' →
      Front.of first rest = slash rest := by
    intro single extended isSlash
    unfold Front.of
    simp only [single, extended]
    rw [if_pos isSlash]
  have asString : singleMark? first = none → extensibleMark? first = none → ¬ first = '/' →
      ¬ isBlank first = true → first = '"' → Front.of first rest = string rest := by
    intro single extended notSlash notBlank isQuote
    unfold Front.of
    simp only [single, extended]
    rw [if_neg notSlash, if_neg notBlank, if_pos isQuote]
  unfold Front.of
  cases single : singleMark? first with
  | some kind => rfl
  | none =>
      cases extended : extensibleMark? first with
      | some pair => exact extensible_append blank pair.1 pair.2 first rest more
      | none =>
          dsimp only
          split
          · rw [asSlash single extended ‹_›] at stays
            exact slash_append blank stays more
          split
          · rfl
          split
          · rw [asString single extended ‹_› ‹_› ‹_›] at fits
            exact string_append fits _
          split
          · exact number_append blank (first :: rest) more
          split
          · exact word_append blank (first :: rest) more
          · rfl

/-! ## What a piece is -/

/-- Whether a piece is cut off the front of a text, and is no closing token. -/
def CutsOff (text : List Char) : Front → Prop
  | gap taken rest => text = taken ++ rest
  | token kind taken rest => text = taken ++ rest ∧ kind ≠ .endOfInput
  | failure _ _ => True

theorem extensible_cutsOff {withEqual alone : Kind} (noEnd : withEqual ≠ .endOfInput ∧ alone ≠ .endOfInput)
    (first : Char) (rest : List Char) :
    (extensible withEqual alone first rest).CutsOff (first :: rest) := by
  unfold extensible
  split
  · exact ⟨rfl, noEnd.1⟩
  · exact ⟨rfl, noEnd.2⟩

theorem slash_cutsOff (rest : List Char) : (slash rest).CutsOff ('/' :: rest) := by
  unfold slash
  split
  · rename_i comment
    have whole := List.takeWhile_append_dropWhile (p := fun character => decide (character ≠ '\n')) (l := comment)
    exact congrArg ('/' :: '/' :: ·) whole.symm
  · exact ⟨rfl, by decide⟩

theorem string_cutsOff (rest : List Char) : (string rest).CutsOff ('"' :: rest) := by
  have whole := List.takeWhile_append_dropWhile (p := fun character => decide (character ≠ '"')) (l := rest)
  unfold string
  dsimp only
  split
  · trivial
  · rename_i quote after dropped
    rw [dropped] at whole
    refine ⟨?_, by simp⟩
    rw [List.cons_append, List.append_assoc, List.singleton_append, whole]

theorem number_cutsOff (text : List Char) : (number text).CutsOff text := by
  have whole := List.takeWhile_append_dropWhile (p := Char.isDigit) (l := text)
  unfold number
  split
  · rename_i digit after dropped
    have others := List.takeWhile_append_dropWhile (p := Char.isDigit) (l := digit :: after)
    rw [dropped] at whole
    split
    · refine ⟨?_, by simp [numberKind]⟩
      rw [List.append_assoc, List.cons_append, others, whole]
    · exact ⟨whole.symm, by simp [numberKind]⟩
  · exact ⟨whole.symm, by simp [numberKind]⟩

theorem word_cutsOff (text : List Char) : (word text).CutsOff text := by
  refine ⟨List.takeWhile_append_dropWhile.symm, ?_⟩
  unfold wordKind
  split <;> simp

/-- The piece at the front of a text is cut off that text. -/
theorem of_cutsOff (first : Char) (rest : List Char) : (Front.of first rest).CutsOff (first :: rest) := by
  unfold Front.of
  split
  · rename_i kind single
    refine ⟨rfl, ?_⟩
    unfold singleMark? at single
    split at single <;> cases single <;> simp
  split
  · rename_i withEqual alone extended
    apply extensible_cutsOff
    unfold extensibleMark? at extended
    split at extended <;> cases extended <;> simp
  split
  · rename_i isSlash
    exact isSlash ▸ slash_cutsOff rest
  split
  · exact rfl
  split
  · rename_i isQuote
    exact isQuote ▸ string_cutsOff rest
  split
  · exact number_cutsOff (first :: rest)
  split
  · exact word_cutsOff (first :: rest)
  · trivial

end Front

/-! ## Texts one behind the other -/

/-- A text that is scanned to its end, and any text behind a line feed: the tokens of the one stand in
front of those of the other, which begins on the line behind. -/
theorem scanFrom_append (line : Nat) (characters more : List Char)
    (complete : (scanFrom line characters).error = none) :
    ∃ body, (∀ token ∈ body, token.kind ≠ .endOfInput) ∧
      scanFrom line characters = ⟨body ++ [closing (lineAfter line characters)], none⟩ ∧
      scanFrom line (characters ++ '\n' :: more) =
        ⟨body ++ (scanFrom (lineAfter line characters + 1) more).tokens,
          (scanFrom (lineAfter line characters + 1) more).error⟩ := by
  induction line, characters using scanFrom_induction with
  | stop line =>
      refine ⟨[], by simp, ?_, ?_⟩
      · rw [scanFrom]
        rfl
      · have found : Front.of '\n' more = .gap ['\n'] more := rfl
        rw [List.nil_append, scanFrom_gap found]
        rfl
  | gap line first rest taken after found inductionHypothesis =>
      have continued := Front.of_append rfl first rest more (by simp [found]) (.inl rfl)
      have cut := Front.of_cutsOff first rest
      rw [found] at continued cut
      rw [scanFrom_gap found] at complete ⊢
      rw [List.cons_append, scanFrom_gap continued,
        show first :: rest = taken ++ after from cut, lineAfter_append]
      exact inductionHypothesis complete
  | token line first rest kind taken after found inductionHypothesis =>
      have continued := Front.of_append rfl first rest more (by simp [found]) (.inl rfl)
      have cut := Front.of_cutsOff first rest
      rw [found] at continued cut
      rw [scanFrom_token found] at complete ⊢
      obtain ⟨body, inner, scanned, joined⟩ := inductionHypothesis complete
      refine ⟨⟨kind, String.ofList taken, lineAfter line taken⟩ :: body, ?_, ?_, ?_⟩
      · intro token member
        rcases List.mem_cons.mp member with rfl | behind
        · exact cut.2
        · exact inner token behind
      · rw [scanned, cut.1, lineAfter_append]
        rfl
      · rw [List.cons_append, scanFrom_token continued, joined, cut.1, lineAfter_append]
        rfl
  | failure line first rest cause taken found =>
      rw [scanFrom_failure found] at complete
      cases complete

end Token

/-- Scanning two texts with a line feed between them gives the tokens of the first without its closing one, and
then the tokens and the mistake of the second, on the lines behind those of the first. -/
theorem Source.scan_joined {first : String} (complete : (Source.text first).scan.error = none)
    (second : String) :
    ∃ body last, (∀ token ∈ body, token.kind ≠ .endOfInput) ∧ last.kind = .endOfInput ∧
      (Source.text first).scan.tokens = body ++ [last] ∧
      (Source.text (first ++ "\n" ++ second)).scan.tokens = body ++
        (Source.text second).scan.tokens.map (·.moveLine (· + (1 + first.toList.count '\n'))) ∧
      (Source.text (first ++ "\n" ++ second)).scan.error =
        (Source.text second).scan.error.map (·.moveLine (· + (1 + first.toList.count '\n'))) := by
  have ⟨body, inner, scanned, joined⟩ := Token.scanFrom_append 1 first.toList second.toList complete
  have characters : (first ++ "\n" ++ second).toList = first.toList ++ '\n' :: second.toList := by simp
  have whole : (Source.text first).scan = _ := scanned
  have behind : Token.lineAfter 1 first.toList + 1 = 1 + (1 + first.toList.count '\n') := by
    unfold Token.lineAfter
    omega
  rw [behind, Token.scanFrom_moveLines, ← characters] at joined
  have together : (Source.text (first ++ "\n" ++ second)).scan = _ := joined
  refine ⟨body, Token.closing (Token.lineAfter 1 first.toList), inner, rfl, ?_, ?_, ?_⟩
  · rw [whole]
  · rw [together]
    rfl
  · rw [together]
    rfl

/-- Two slashes with a line feed between them are no comment, so what stands behind them is scanned. -/
theorem Source.scan_joined_slashes :
    (Source.text "/").scan.error = none ∧
      (Source.text ("/" ++ "\n" ++ "/@")).scan.error = some ⟨.unexpectedCharacter, 2⟩ := by
  have complete : (Source.text "/").scan.error = none := by decide +kernel
  obtain ⟨_, _, _, _, _, _, mistake⟩ := scan_joined complete "/@"
  have alone : (Source.text "/@").scan.error = some ⟨.unexpectedCharacter, 1⟩ := by decide +kernel
  refine ⟨complete, mistake.trans ?_⟩
  rw [alone]
  rfl

end LoxInterpreter
