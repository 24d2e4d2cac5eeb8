import LoxInterpreter.Proofs.Token.LongestMatch

/-!
Contract: what lexemes are scanned to.

A lexeme is one of the forms of its kind, whatever text it was cut from, so at the end of a text it is cut off
whole. In front of a blank the same is cut off as at the end. So lexemes with spaces between them are scanned
one by one, with no regard to what they would make without the spaces.

Owns: `Token.apartFromLine`, and `scan_spaced_lexemes`.
Does not own: the forms (`Proofs.Token.Forms`), and why a blank separates (`Proofs.Lines.Scanning`).
-/

namespace LoxInterpreter.Token

/-- A token without its line: its kind, its lexeme, and its literal. -/
def apartFromLine (token : Token) : Kind × String × Literal := (token.kind, token.lexeme, token.literal)

/-! ## One lexeme -/

theorem Cuts.form {position last : Position} {tokens : List Token} (cuts : Cuts position tokens last) :
    ∀ token ∈ tokens, Form token.kind token.literal token.lexeme.toList := by
  induction cuts with
  | stop position =>
      intro token member
      cases member
  | gap _ _ _ inductionHypothesis => exact inductionHypothesis
  | token form _ _ _ inductionHypothesis =>
      intro token member
      rcases List.mem_cons.mp member with same | behind
      · exact same ▸ form
      · exact inductionHypothesis token behind

theorem Position.mem_of_mem_conclude {position : Position} {tokens : List Token} {token : Token}
    (member : token ∈ (position.conclude tokens).tokens) (notClosing : token.kind ≠ .endOfInput) :
    token ∈ tokens := by
  unfold conclude at member
  split at member
  · rcases List.mem_append.mp member with before | isClosing
    · exact before
    · rw [List.mem_singleton.mp isClosing] at notClosing
      exact absurd rfl notClosing
  · exact member
  · exact member

/-- Every token that a scan emits has the form of its kind, but for the closing one. -/
theorem form_of_emitted {source : Source} {token : Token} (emitted : token ∈ source.scan.tokens)
    (notClosing : token.kind ≠ .endOfInput) : Form token.kind token.literal token.lexeme.toList := by
  have ⟨text, member⟩ := exists_text_of_emitted emitted
  have ⟨tokens, last, cuts, _, scans⟩ := exists_cuts 1 text.toList
  unfold scanText at member
  rw [scans] at member
  exact cuts.form token (Position.mem_of_mem_conclude member notClosing)

variable {kind : Kind} {carried : Literal} {piece : List Char}

/-- What is written for a token is cut off whole where nothing stands behind it. -/
theorem Form.exists_front (form : Form kind carried piece) :
    ∃ first rest, piece = first :: rest ∧ Front.of first rest = .token kind piece [] := by
  have ⟨first, rest, isText⟩ := List.exists_cons_of_ne_nil form.ne_nil
  have isFront : piece ++ [] = first :: rest := by rw [List.append_nil, isText]
  have longest : IsLongest piece [] := fun other _ isPrefix => by
    rw [List.append_nil] at isPrefix
    exact isPrefix.length_le
  exact ⟨first, rest, isText, (Front.form_covered form isFront).resolve_right (longest.not_exceeds isFront)⟩

/-- What is written for a token is scanned to it where nothing stands behind it. -/
theorem Form.scanFrom_eq (form : Form kind carried piece) (line : Nat) :
    scanFrom line piece =
      ⟨[⟨kind, String.ofList piece, lineAfter line piece⟩, closing (lineAfter line piece)], none⟩ := by
  have ⟨first, rest, isText, found⟩ := form.exists_front
  have closes (line : Nat) : scanFrom line [] = ⟨[closing line], none⟩ := by rw [scanFrom]
  rw [isText, scanFrom_token found, ← isText, closes]
  rfl

/-- What is written for a token is scanned to it in front of a space. -/
theorem Form.scanFrom_append (form : Form kind carried piece) (line : Nat) (more : List Char) :
    scanFrom line (piece ++ ' ' :: more) =
      (scanFrom (lineAfter line piece) more).prepend ⟨kind, String.ofList piece, lineAfter line piece⟩ := by
  have ⟨first, rest, isText, found⟩ := form.exists_front
  have blank : isBlank ' ' = true := rfl
  have continued := Front.of_append blank first rest more (by simp [found]) (by simp [found])
  rw [found] at continued
  have space : Front.of ' ' more = .gap [' '] more := rfl
  have sameLine (line : Nat) : lineAfter line [' '] = line := rfl
  rw [isText, List.cons_append, scanFrom_token continued, ← isText, List.nil_append, scanFrom_gap space,
    sameLine]

/-! ## Lexemes with spaces between them -/

/-- Pieces of the forms of some tokens, with spaces between them, are scanned to these tokens, on other
lines. -/
theorem scanFrom_intercalate (tokens : List Token)
    (forms : ∀ token ∈ tokens, Form token.kind token.literal token.lexeme.toList) (line : Nat) :
    ∃ again stop, again.map apartFromLine = tokens.map apartFromLine ∧
      scanFrom line ([' '].intercalate (tokens.map (·.lexeme.toList))) =
        ⟨again ++ [closing stop], none⟩ := by
  induction tokens generalizing line with
  | nil =>
      refine ⟨[], line, rfl, ?_⟩
      rw [List.map_nil, List.intercalate_nil, scanFrom]
      rfl
  | cons token rest inductionHypothesis =>
      have form := forms token List.mem_cons_self
      cases rest with
      | nil =>
          refine ⟨[{ token with line := lineAfter line token.lexeme.toList }],
            lineAfter line token.lexeme.toList, rfl, ?_⟩
          rw [List.map_singleton, List.intercalate_singleton, form.scanFrom_eq, String.ofList_toList]
          rfl
      | cons second others =>
          have behind := inductionHypothesis fun other member => forms other (List.mem_cons_of_mem token member)
          obtain ⟨again, stop, same, scans⟩ := behind (lineAfter line token.lexeme.toList)
          rw [List.map_cons] at scans
          refine ⟨{ token with line := lineAfter line token.lexeme.toList } :: again, stop, ?_, ?_⟩
          · rw [List.map_cons, same]
            rfl
          · rw [List.map_cons, List.map_cons, List.intercalate_cons_cons, List.append_assoc,
              List.singleton_append, form.scanFrom_append, scans, String.ofList_toList]
            rfl

/-- Lexemes of any scans, with spaces between them, are scanned without mistake to tokens that say the same, and
to the closing one. A lexeme alone is scanned to its token, on the lines that it takes. -/
theorem scan_spaced_lexemes (tokens : List Token)
    (emitted : ∀ token ∈ tokens, token.kind ≠ .endOfInput ∧ ∃ source : Source, token ∈ source.scan.tokens) :
    (∃ again last, (Source.text (" ".intercalate (tokens.map lexeme))).scan = ⟨again ++ [last], none⟩ ∧
      last.kind = .endOfInput ∧ again.map apartFromLine = tokens.map apartFromLine) ∧
    ∀ token ∈ tokens, ∃ line,
      (Source.text token.lexeme).scan = ⟨[{ token with line := line }, closing line], none⟩ := by
  have forms : ∀ token ∈ tokens, Form token.kind token.literal token.lexeme.toList := by
    intro token member
    have ⟨notClosing, _, scanned⟩ := emitted token member
    exact form_of_emitted scanned notClosing
  constructor
  · have ⟨again, stop, same, scans⟩ := scanFrom_intercalate tokens forms 1
    refine ⟨again, closing stop, ?_, rfl, same⟩
    change scanFrom 1 (" ".intercalate (tokens.map lexeme)).toList = _
    rw [String.toList_intercalate, List.map_map]
    exact scans
  · intro token member
    refine ⟨lineAfter 1 token.lexeme.toList, ?_⟩
    change scanFrom 1 token.lexeme.toList = _
    rw [(forms token member).scanFrom_eq, String.ofList_toList]

/-- A bang and an equals sign stay two tokens. -/
theorem scan_spaced_lexemes_bang :
    (∀ token ∈ [Token.ofSymbol .bang 1, Token.ofSymbol .equal 1],
      token.kind ≠ .endOfInput ∧ ∃ source : Source, token ∈ source.scan.tokens) ∧
    ∃ again last, (Source.text "! =").scan = ⟨again ++ [last], none⟩ ∧
      last.kind = .endOfInput ∧
      again.map apartFromLine = [(.bang, "!", .constant .nil), (.equal, "=", .constant .nil)] := by
  have bang : (Source.text "!").scan.tokens = [.ofSymbol .bang 1, .closing 1] := by decide +kernel
  have equal : (Source.text "=").scan.tokens = [.ofSymbol .equal 1, .closing 1] := by decide +kernel
  have emitted : ∀ token ∈ [Token.ofSymbol .bang 1, Token.ofSymbol .equal 1],
      token.kind ≠ .endOfInput ∧ ∃ source : Source, token ∈ source.scan.tokens := by
    intro token member
    rcases List.mem_pair.mp member with rfl | rfl
    · exact ⟨by decide, .text "!", bang ▸ List.mem_cons_self⟩
    · exact ⟨by decide, .text "=", equal ▸ List.mem_cons_self⟩
  exact ⟨emitted, (scan_spaced_lexemes [.ofSymbol .bang 1, .ofSymbol .equal 1] emitted).1⟩

end LoxInterpreter.Token
