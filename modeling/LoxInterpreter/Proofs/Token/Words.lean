import LoxInterpreter.Proofs.Token.Lines

/-!
Contract: how words are scanned.

A word is cut off whole where a character follows that cannot continue it. Every identifier of a scan
is such a word, so its lexeme can be written into other text and is scanned there as the same name.

Owns: `Token.IsWord`, `Token.IsName`, `scanFrom_word` and `isName_of_scanFrom`.
-/

namespace LoxInterpreter.Token

/-- Whether characters are a word: one that begins words, and others that continue them. -/
def IsWord : List Char → Prop
  | [] => False
  | first :: rest => isWordStart first = true ∧ rest.all isWordPart = true

/-- Whether characters are a word that is not reserved. -/
def IsName (characters : List Char) : Prop :=
  IsWord characters ∧ wordKind characters = .identifier

instance : DecidablePred IsWord
  | [] => .isFalse id
  | _ :: _ => inferInstanceAs (Decidable (_ ∧ _))

instance : DecidablePred IsName := fun _ => inferInstanceAs (Decidable (_ ∧ _))

theorem IsWord.isWordPart {word : List Char} (isWord : IsWord word) :
    ∀ character ∈ word, isWordPart character = true := by
  cases word with
  | nil => exact isWord.elim
  | cons first rest =>
      intro character member
      rcases List.mem_cons.mp member with same | behind
      · rw [same, Token.isWordPart, isWord.1]
        rfl
      · exact List.all_eq_true.mp isWord.2 character behind

/-! ## The front of a text -/

namespace Front

variable {first : Char} {rest taken after : List Char}

/-- The characters that begin marks, gaps and strings. -/
def specials : List Char :=
  ['(', ')', '\x7b', '\x7d', ',', '.', '-', '+', ';', '*', '!', '=', '<', '>', '/', ' ', '\r', '\t',
    '\n', '"']

/-- What is true of no special character is true of plain ones. -/
theorem not_mem_specials {keep : Char → Bool} (keepsNone : specials.any keep = false)
    (kept : keep first = true) : first ∉ specials := by
  intro isSpecial
  exact absurd kept (List.any_eq_false.mp keepsNone first isSpecial)

/-- A plain character begins a number, a word, or nothing. -/
theorem of_plain (plain : first ∉ specials) (rest : List Char) :
    Front.of first rest =
      if first.isDigit then number (first :: rest)
      else if isWordStart first then word (first :: rest)
      else .failure .unexpectedCharacter [] := by
  have single : singleMark? first = none := by
    unfold singleMark?
    split
    all_goals first | rfl | exact absurd (by decide) plain
  have extended : extensibleMark? first = none := by
    unfold extensibleMark?
    split
    all_goals first | rfl | exact absurd (by decide) plain
  have notSlash : first ≠ '/' := fun same => plain (same ▸ by decide)
  have notQuote : first ≠ '"' := fun same => plain (same ▸ by decide)
  have notBlank : isBlank first = false := by
    have spaces : ∀ blank ∈ [' ', '\r', '\t', '\n'], first ≠ blank := by
      intro blank isBlank same
      have isSpecial : blank ∈ specials := (by decide : [' ', '\r', '\t', '\n'] ⊆ specials) isBlank
      exact plain (same ▸ isSpecial)
    simpa [isBlank, and_assoc] using spaces
  unfold Front.of
  rw [single, extended]
  dsimp only
  rw [if_neg notSlash, notBlank, if_neg Bool.false_ne_true, if_neg notQuote]

theorem isDigit_of_wordStart (start : isWordStart first = true) : first.isDigit = false := by
  by_cases underscore : first = '_'
  · rw [underscore]
    decide
  · have letter : first.isAlpha = true := by simpa [isWordStart, underscore] using start
    refine Bool.eq_false_iff.mpr fun digit => ?_
    have small : first.val ≤ '9'.val := of_decide_eq_true (Bool.and_eq_true_iff.mp digit).2
    rcases Bool.or_eq_true_iff.mp letter with upper | lower
    · have large : 'A'.val ≤ first.val := (of_decide_eq_true upper).1
      exact absurd (UInt32.le_trans large small) (by decide)
    · have large : 'a'.val ≤ first.val := of_decide_eq_true (Bool.and_eq_true_iff.mp lower).1
      exact absurd (UInt32.le_trans large small) (by decide)

/-- What begins words begins nothing else. -/
theorem of_wordStart (start : isWordStart first = true) (rest : List Char) :
    Front.of first rest = word (first :: rest) := by
  rw [of_plain (not_mem_specials rfl start), isDigit_of_wordStart start,
    if_neg Bool.false_ne_true, if_pos start]

/-- A digit begins nothing but numbers. -/
theorem of_digit (digit : first.isDigit = true) (rest : List Char) :
    Front.of first rest = number (first :: rest) := by
  rw [of_plain (not_mem_specials rfl digit), if_pos digit]

theorem singleMark?_ne_identifier : singleMark? first ≠ some .identifier := by
  unfold singleMark?
  split <;> simp

theorem extensibleMark?_ne_identifier {withEqual alone : Kind}
    (mark : extensibleMark? first = some (withEqual, alone)) :
    withEqual ≠ .identifier ∧ alone ≠ .identifier := by
  unfold extensibleMark? at mark
  split at mark <;> cases mark <;> simp

theorem isName_of_word (start : isWordStart first = true)
    (found : word (first :: rest) = .token .identifier taken after) : IsName taken := by
  unfold word at found
  injection found with isIdentifier isTaken
  rw [isTaken] at isIdentifier
  refine ⟨?_, isIdentifier⟩
  have part : isWordPart first = true := by
    rw [isWordPart, start]
    rfl
  rw [← isTaken, List.takeWhile_cons_of_pos part]
  exact ⟨start, List.all_eq_true.mpr fun character member => List.mem_takeWhile_imp member⟩

/-- Only words are scanned as identifiers. -/
theorem isName_of_identifier (found : Front.of first rest = .token .identifier taken after) :
    IsName taken := by
  unfold Front.of at found
  split at found
  · rename_i kind mark
    injection found with isIdentifier
    rw [isIdentifier] at mark
    exact absurd mark singleMark?_ne_identifier
  split at found
  · rename_i withEqual alone mark
    have ⟨neWith, neAlone⟩ := extensibleMark?_ne_identifier mark
    unfold extensible at found
    split at found <;> injection found with isIdentifier
    · exact absurd isIdentifier neWith
    · exact absurd isIdentifier neAlone
  split at found
  · unfold slash at found
    split at found <;> cases found
  split at found
  · cases found
  split at found
  · unfold string at found
    dsimp only at found
    split at found <;> cases found
  split at found
  · unfold number at found
    dsimp only at found
    split at found
    · split at found <;> cases found
    · cases found
  split at found
  · exact isName_of_word ‹_› found
  · cases found

end Front

/-! ## Scanning -/

/-- No word goes on to another line. -/
theorem lineAfter_word {word : List Char} (isWord : IsWord word) (line : Nat) :
    lineAfter line word = line := by
  have none : '\n' ∉ word := by
    intro member
    have part := isWord.isWordPart '\n' member
    exact absurd part (by decide)
  rw [lineAfter, List.count_eq_zero.mpr none, Nat.add_zero]

/-- A word is scanned whole in front of a character that cannot continue it. -/
theorem scanFrom_word {word : List Char} (isWord : IsWord word) {next : Char}
    (stops : isWordPart next = false) (line : Nat) (rest : List Char) :
    scanFrom line (word ++ next :: rest) =
      (scanFrom line (next :: rest)).prepend ⟨wordKind word, String.ofList word, line⟩ := by
  cases split : word with
  | nil =>
      rw [split] at isWord
      exact isWord.elim
  | cons first others =>
      have taken : (word ++ next :: rest).takeWhile isWordPart = word := by
        rw [List.takeWhile_append_of_pos isWord.isWordPart, List.takeWhile_cons_of_neg (by simp [stops]),
          List.append_nil]
      have left : (word ++ next :: rest).dropWhile isWordPart = next :: rest := by
        rw [List.dropWhile_append_of_pos isWord.isWordPart, List.dropWhile_cons_of_neg (by simp [stops])]
      have start : isWordStart first = true := by
        rw [split] at isWord
        exact isWord.1
      have found : Front.of first (others ++ next :: rest) =
          .token (wordKind word) word (next :: rest) := by
        rw [Front.of_wordStart start, ← List.cons_append, ← split, Front.word, taken, left]
      rw [List.cons_append, scanFrom_token found, lineAfter_word isWord, split]

/-- Every identifier of a scan is a name. -/
theorem isName_of_scanFrom (line : Nat) (characters : List Char) :
    ∀ token ∈ (scanFrom line characters).tokens, token.kind = .identifier →
      IsName token.lexeme.toList := by
  induction line, characters using scanFrom_induction with
  | stop line =>
      intro token member isIdentifier
      rw [scanFrom] at member
      rw [List.mem_singleton.mp member] at isIdentifier
      cases isIdentifier
  | gap line first rest taken after found inductionHypothesis =>
      rw [scanFrom_gap found]
      exact inductionHypothesis
  | token line first rest kind taken after found inductionHypothesis =>
      rw [scanFrom_token found]
      intro token member isIdentifier
      rcases List.mem_cons.mp member with same | behind
      · rw [same] at isIdentifier ⊢
        dsimp only at isIdentifier ⊢
        rw [isIdentifier] at found
        rw [String.toList_ofList]
        exact Front.isName_of_identifier found
      · exact inductionHypothesis token behind isIdentifier
  | failure line first rest cause taken found =>
      rw [scanFrom_failure found]
      intro token member
      cases member

/-- What is scanned from bytes is scanned from the text that they encode. -/
theorem exists_text_of_emitted {source : Source} {token : Token} (emitted : token ∈ source.scan.tokens) :
    ∃ text, token ∈ (scanText text).tokens := by
  cases source with
  | text content => exact ⟨content, emitted⟩
  | bytes content =>
      unfold Source.scan at emitted
      dsimp only at emitted
      cases decodes : Text.decode content with
      | ok decoded =>
          rw [decodes] at emitted
          exact ⟨decoded, emitted⟩
      | error line =>
          rw [decodes] at emitted
          cases emitted

end LoxInterpreter.Token
