import LoxInterpreter.Proofs.Token.Forms

/-!
Contract: scanning is longest match.

At every position the scan cuts off the longest piece that the lexical grammar has there, until there is
none. Then it has come to the end of the text, or to a mistake.

Owns: `Token.Cuts`, `Token.Position.conclude`, and `scan_longest_match`.
Does not own: the grammar (`Proofs.Token.Forms`).
-/

namespace LoxInterpreter.Token

/-- How far a scan has come: the line, and the characters that remain. -/
structure Position where
  line : Nat
  text : List Char

/-- Whether the grammar has no longer piece at the front of a text than the one that is cut off. -/
def IsLongest (piece rest : List Char) : Prop :=
  ∀ other, IsPiece other → other <+: piece ++ rest → other.length ≤ piece.length

/-- Whether longest pieces, one behind the other, lead from a position to another, with these tokens among
them. -/
inductive Cuts : Position → List Token → Position → Prop
  | stop (position : Position) : Cuts position [] position
  | gap {line : Nat} {piece rest : List Char} {tokens : List Token} {last : Position}
      (isGap : IsGap piece) (longest : IsLongest piece rest)
      (behind : Cuts ⟨lineAfter line piece, rest⟩ tokens last) :
      Cuts ⟨line, piece ++ rest⟩ tokens last
  | token {line : Nat} {token : Token} {rest : List Char} {tokens : List Token} {last : Position}
      (form : Form token.kind token.literal token.lexeme.toList)
      (longest : IsLongest token.lexeme.toList rest)
      (ends : token.line = lineAfter line token.lexeme.toList)
      (behind : Cuts ⟨token.line, rest⟩ tokens last) :
      Cuts ⟨line, token.lexeme.toList ++ rest⟩ (token :: tokens) last

namespace Position

/-- Whether the grammar has no piece at a position. -/
def IsStuck (position : Position) : Prop := ∀ piece, IsPiece piece → ¬ piece <+: position.text

/-- The scan that ends at a position, behind some tokens: complete at the end of the text, and otherwise
a mistake. What begins with a quote there is a string that does not end. -/
def conclude (position : Position) (tokens : List Token) : Scan :=
  match position.text with
  | [] => ⟨tokens ++ [closing position.line], none⟩
  | '"' :: _ => ⟨tokens, some ⟨.unterminatedString, lineAfter position.line position.text⟩⟩
  | _ :: _ => ⟨tokens, some ⟨.unexpectedCharacter, position.line⟩⟩

theorem prepend_conclude (position : Position) (token : Token) (tokens : List Token) :
    (position.conclude tokens).prepend token = position.conclude (token :: tokens) := by
  unfold conclude
  split <;> rfl

end Position

/-! ## One piece -/

theorem Form.ne_nil {kind : Kind} {carried : Literal} {piece : List Char}
    (form : Form kind carried piece) : piece ≠ [] := by
  cases form with
  | @mark kind isMark =>
      intro isNil
      rcases Front.mark_cases isMark with ⟨_, _, written⟩ | ⟨_, _, _, _, _, ⟨_, written⟩ | ⟨_, written⟩⟩ | rfl
      · simp [written] at isNil
      · simp [written] at isNil
      · simp [written] at isNil
      · cases isNil
  | integer areDigits => exact areDigits.1
  | decimal => simp
  | string => simp
  | reserved word => cases word <;> simp [Keyword.spelling]
  | identifier isWord =>
      intro isNil
      rw [isNil] at isWord
      exact isWord

theorem IsPiece.ne_nil {piece : List Char} (isPiece : IsPiece piece) : piece ≠ [] := by
  rcases isPiece with isGap | ⟨_, _, form⟩
  · cases isGap <;> simp
  · exact form.ne_nil

theorem Form.kind_ne_endOfInput {kind : Kind} {carried : Literal} {piece : List Char}
    (form : Form kind carried piece) : kind ≠ .endOfInput := by
  cases form with
  | mark isMark =>
      intro isEnd
      rw [isEnd] at isMark
      exact absurd isMark (by decide)
  | _ => simp

section Piece

variable {first : Char} {rest taken after : List Char}

/-- What is cut off as a token is one of the grammar, in front of what remains. -/
theorem form_of_token {kind : Kind} (found : Front.of first rest = .token kind taken after) :
    first :: rest = taken ++ after ∧
      ∀ line, Form kind (literal ⟨kind, String.ofList taken, line⟩) taken := by
  have cut := Front.of_cutsOff first rest
  have wellFormed := Front.of_wellFormed first rest
  rw [found] at cut wellFormed
  exact ⟨cut.1, wellFormed⟩

/-- What is cut off as a gap is one of the grammar, in front of what remains. -/
theorem isGap_of_gap (found : Front.of first rest = .gap taken after) :
    first :: rest = taken ++ after ∧ IsGap taken := by
  have cut := Front.of_cutsOff first rest
  have wellFormed := Front.of_wellFormed first rest
  rw [found] at cut wellFormed
  exact ⟨cut, wellFormed⟩

/-- What is cut off is a piece of the grammar, if it is not empty. -/
theorem isPiece_cut (notEmpty : (Front.of first rest).cut ≠ []) :
    IsPiece (Front.of first rest).cut ∧ (Front.of first rest).cut <+: first :: rest := by
  cases found : Front.of first rest with
  | gap taken after =>
      have cut := isGap_of_gap found
      exact ⟨.inl cut.2, cut.1 ▸ List.prefix_append taken after⟩
  | token kind taken after =>
      have cut := form_of_token found
      exact ⟨.inr ⟨_, _, cut.2 0⟩, cut.1 ▸ List.prefix_append taken after⟩
  | failure cause taken =>
      rw [found] at notEmpty
      exact absurd rfl notEmpty

/-- What the grammar has at the front of a text is no longer than what is cut off. -/
theorem IsPiece.length_le_cut {piece : List Char} (isPiece : IsPiece piece)
    (isFront : piece <+: first :: rest) : piece.length ≤ (Front.of first rest).cut.length := by
  have ⟨more, isText⟩ := isFront
  rcases isPiece with isGap | ⟨kind, _, form⟩
  · rcases Front.gap_covered isGap isText with found | longer
    · rw [found]
      exact le_rfl
    · exact Nat.le_of_lt longer
  · rcases Front.form_covered form isText with found | longer
    · rw [found]
      exact le_rfl
    · exact Nat.le_of_lt longer

/-- Where a piece is the longest, nothing longer is cut off. -/
theorem IsLongest.not_exceeds {piece more : List Char} (longest : IsLongest piece more)
    (isText : piece ++ more = first :: rest) : ¬ (Front.of first rest).Exceeds piece.length := by
  intro longer
  have notEmpty : (Front.of first rest).cut ≠ [] :=
    List.ne_nil_of_length_pos (Nat.lt_of_le_of_lt (Nat.zero_le _) longer)
  have cut := isPiece_cut notEmpty
  have shorter := longest _ cut.1 (isText.symm ▸ cut.2)
  exact absurd longer (Nat.not_lt.mpr shorter)

/-- What is cut off is the longest piece. -/
theorem isLongest_of_cut (split : first :: rest = taken ++ after)
    (isCut : (Front.of first rest).cut = taken) : IsLongest taken after := by
  intro other isPiece isFront
  rw [← split] at isFront
  rw [← isCut]
  exact isPiece.length_le_cut isFront

/-- Where nothing is cut off, the grammar has nothing. -/
theorem isStuck_of_cut (nothing : (Front.of first rest).cut = []) (line : Nat) :
    Position.IsStuck ⟨line, first :: rest⟩ := by
  intro piece isPiece isFront
  have shorter := isPiece.length_le_cut isFront
  rw [nothing] at shorter
  exact isPiece.ne_nil (List.eq_nil_of_length_eq_zero (Nat.le_zero.mp shorter))

/-- The scanner fails for a string that does not end, which takes all of the text, or for a character that
begins nothing. -/
theorem failure_cases {cause : LexicalError.Cause} (found : Front.of first rest = .failure cause taken) :
    (first = '"' ∧ cause = .unterminatedString ∧ taken = first :: rest) ∨
      (first ≠ '"' ∧ cause = .unexpectedCharacter ∧ taken = []) := by
  unfold Front.of at found
  split at found
  · cases found
  split at found
  · unfold Front.extensible at found
    split at found <;> cases found
  split at found
  · unfold Front.slash at found
    split at found <;> cases found
  split at found
  · cases found
  split at found
  · rename_i isQuote
    unfold Front.string at found
    dsimp only at found
    split at found
    · rename_i dropped
      have whole := List.takeWhile_append_dropWhile (p := fun character => decide (character ≠ '"'))
        (l := rest)
      rw [dropped, List.append_nil] at whole
      rw [whole] at found
      cases found
      exact .inl ⟨isQuote, rfl, by rw [isQuote]⟩
    · cases found
  rename_i notQuote
  split at found
  · unfold Front.number at found
    dsimp only at found
    split at found
    · split at found <;> cases found
    · cases found
  split at found
  · cases found
  · cases found
    exact .inr ⟨notQuote, rfl, rfl⟩

end Piece

/-! ## Whole texts -/

/-- Where the grammar has nothing, the scan is at its end. -/
theorem scanFrom_of_isStuck {position : Position} (stuck : position.IsStuck) :
    scanFrom position.line position.text = position.conclude [] := by
  obtain ⟨line, text⟩ := position
  cases text with
  | nil =>
      rw [scanFrom]
      rfl
  | cons first rest =>
      cases found : Front.of first rest with
      | gap taken after =>
          have cut := isGap_of_gap found
          exact absurd (cut.1 ▸ List.prefix_append taken after) (stuck taken (.inl cut.2))
      | token kind taken after =>
          have cut := form_of_token found
          exact absurd (cut.1 ▸ List.prefix_append taken after) (stuck taken (.inr ⟨_, _, cut.2 0⟩))
      | failure cause taken =>
          rw [scanFrom_failure found]
          unfold Position.conclude
          dsimp only
          rcases failure_cases found with ⟨isQuote, rfl, rfl⟩ | ⟨notQuote, rfl, rfl⟩
          · subst isQuote
            rfl
          · split
            · rename_i isNil
              cases isNil
            · rename_i isText
              exact absurd (List.cons.inj isText).1 notQuote
            · rfl

/-- A token whose lexeme is given as characters. -/
theorem Cuts.taken {line : Nat} {kind : Kind} {taken rest : List Char} {tokens : List Token}
    {last : Position}
    (form : Form kind (literal ⟨kind, String.ofList taken, lineAfter line taken⟩) taken)
    (longest : IsLongest taken rest) (behind : Cuts ⟨lineAfter line taken, rest⟩ tokens last) :
    Cuts ⟨line, taken ++ rest⟩ (⟨kind, String.ofList taken, lineAfter line taken⟩ :: tokens) last := by
  obtain ⟨lexeme, rfl⟩ : ∃ lexeme : String, lexeme.toList = taken :=
    ⟨String.ofList taken, String.toList_ofList⟩
  rw [String.ofList_toList] at form ⊢
  exact @Cuts.token line ⟨kind, lexeme, lineAfter line lexeme.toList⟩ rest tokens last form longest rfl behind

/-- A scan cuts its text into longest pieces, until there is none. -/
theorem exists_cuts (line : Nat) (text : List Char) :
    ∃ tokens last, Cuts ⟨line, text⟩ tokens last ∧ last.IsStuck ∧
      scanFrom line text = last.conclude tokens := by
  induction line, text using scanFrom_induction with
  | stop line =>
      have stuck : Position.IsStuck ⟨line, []⟩ := by
        intro piece isPiece isFront
        exact isPiece.ne_nil (List.prefix_nil.mp isFront)
      exact ⟨[], _, .stop _, stuck, scanFrom_of_isStuck stuck⟩
  | gap line first rest taken after found inductionHypothesis =>
      obtain ⟨tokens, last, cuts, stuck, scans⟩ := inductionHypothesis
      have cut := isGap_of_gap found
      refine ⟨tokens, last, ?_, stuck, ?_⟩
      · rw [cut.1]
        exact .gap cut.2 (isLongest_of_cut cut.1 (congrArg Front.cut found)) cuts
      · rw [scanFrom_gap found, scans]
  | token line first rest kind taken after found inductionHypothesis =>
      obtain ⟨tokens, last, cuts, stuck, scans⟩ := inductionHypothesis
      have cut := form_of_token found
      refine ⟨⟨kind, String.ofList taken, lineAfter line taken⟩ :: tokens, last, ?_, stuck, ?_⟩
      · rw [cut.1]
        exact .taken (cut.2 _) (isLongest_of_cut cut.1 (congrArg Front.cut found)) cuts
      · rw [scanFrom_token found, scans, last.prepend_conclude]
  | failure line first rest cause taken found =>
      have stuck := isStuck_of_cut (congrArg Front.cut found) line
      exact ⟨[], _, .stop _, stuck, scanFrom_of_isStuck stuck⟩

/-- A text that longest pieces cut up to where there is none is scanned as these pieces. -/
theorem Cuts.scanFrom_eq {position last : Position} {tokens : List Token}
    (cuts : Cuts position tokens last) (stuck : last.IsStuck) :
    scanFrom position.line position.text = last.conclude tokens := by
  induction cuts with
  | stop position => exact scanFrom_of_isStuck stuck
  | @gap line piece rest tokens last isGap longest behind inductionHypothesis =>
      obtain ⟨first, others, isText⟩ : ∃ first others, piece ++ rest = first :: others :=
        List.exists_cons_of_ne_nil (List.append_ne_nil_of_left_ne_nil (IsPiece.ne_nil (.inl isGap)) rest)
      have found := (Front.gap_covered isGap isText).resolve_right (longest.not_exceeds isText)
      dsimp only
      rw [isText, scanFrom_gap found]
      exact inductionHypothesis stuck
  | @token line token rest tokens last form longest ends behind inductionHypothesis =>
      obtain ⟨first, others, isText⟩ : ∃ first others, token.lexeme.toList ++ rest = first :: others :=
        List.exists_cons_of_ne_nil (List.append_ne_nil_of_left_ne_nil form.ne_nil rest)
      have found := (Front.form_covered form isText).resolve_right (longest.not_exceeds isText)
      have scans := inductionHypothesis stuck
      dsimp only at scans ⊢
      rw [isText, scanFrom_token found, ← ends, scans, String.ofList_toList, last.prepend_conclude]

theorem Cuts.kind_ne_endOfInput {position last : Position} {tokens : List Token}
    (cuts : Cuts position tokens last) : ∀ token ∈ tokens, token.kind ≠ .endOfInput := by
  induction cuts with
  | stop position =>
      intro token member
      cases member
  | gap _ _ _ inductionHypothesis => exact inductionHypothesis
  | token form _ _ _ inductionHypothesis =>
      intro token member
      rcases List.mem_cons.mp member with same | behind
      · rw [same]
        exact form.kind_ne_endOfInput
      · exact inductionHypothesis token behind

/-- The scan of a text is longest match by the lexical grammar. It is the one that cuts off the longest
piece at every position, keeps the tokens among the pieces, and stops where the grammar has no piece: at the
end of the text, with the closing token, or else with a mistake, and then no token is the closing one. -/
theorem scan_longest_match (text : String) :
    (∀ scan, (Source.text text).scan = scan ↔
      ∃ tokens last, Cuts ⟨1, text.toList⟩ tokens last ∧ last.IsStuck ∧ scan = last.conclude tokens) ∧
    ((Source.text text).scan.error ≠ none →
      ∀ token ∈ (Source.text text).scan.tokens, token.kind ≠ .endOfInput) := by
  constructor
  · intro scan
    constructor
    · intro scans
      obtain ⟨tokens, last, cuts, stuck, isScan⟩ := exists_cuts 1 text.toList
      exact ⟨tokens, last, cuts, stuck, scans.symm.trans isScan⟩
    · intro ⟨tokens, last, cuts, stuck, isScan⟩
      exact (cuts.scanFrom_eq stuck).trans isScan.symm
  · intro fails
    obtain ⟨tokens, last, cuts, stuck, isScan⟩ := exists_cuts 1 text.toList
    have isScan : (Source.text text).scan = last.conclude tokens := isScan
    rw [isScan] at fails ⊢
    unfold Position.conclude at fails ⊢
    split
    · rename_i isEnd
      rw [isEnd] at fails
      exact absurd rfl fails
    · exact cuts.kind_ne_endOfInput
    · exact cuts.kind_ne_endOfInput

/-- A character that begins no token ends the scan behind the tokens in front of it, without a closing one. -/
theorem scan_longest_match_strayCharacter :
    let scan := (Source.text "<==@ 1").scan
    scan.error ≠ none ∧ scan.tokens.map Token.lexeme = ["<=", "="] ∧
      ∀ token ∈ scan.tokens, token.kind ≠ .endOfInput := by
  intro scan
  have fails : scan.error ≠ none := by
    have isMistake : scan.error = some ⟨.unexpectedCharacter, 1⟩ := by
      unfold scan
      decide +kernel
    rw [isMistake]
    exact Option.some_ne_none _
  have lexemes : scan.tokens.map Token.lexeme = ["<=", "="] := by
    unfold scan
    decide +kernel
  exact ⟨fails, lexemes, (scan_longest_match "<==@ 1").2 fails⟩

/-- A slash is a token at the end of a text, and begins a comment in front of another one. -/
example : (Source.text "orb/").scan.tokens.map Token.lexeme = ["orb", "/", ""] ∧
    (Source.text "or//b").scan.tokens.map Token.lexeme = ["or", ""] := by
  decide +kernel

end LoxInterpreter.Token
