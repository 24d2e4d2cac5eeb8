import LoxInterpreter.Proofs.Document.Grammar

/-!
Contract: strings stand between quotes as they are.

However a character is written, what is written stands for no other one, and shows where it ends: a quote is
never part of it, and half of a character beyond the first 65,536 is none. So a text between quotes is that of
one string, and the writer's escapes make it that of the string that was given.

Owns: `Writes.unique`, `Characters.unique`, and `quoted_writeString`.
Does not own: which characters are escaped (`Document`).
-/

namespace LoxInterpreter.Json

/-! ## Codes -/

theorem eq_of_unit? {text : List Char} {code : Nat} (isCode : unit? text = some code) :
    ∃ digits : List Char, digits.length = 4 ∧ text = '\\' :: 'u' :: digits := by
  unfold unit? at isCode
  split at isCode
  · exact ⟨[_, _, _, _], rfl, rfl⟩
  · cases isCode

/-- Two codes at the same place are the same. -/
theorem unit?_append_inj {text text' rest rest' : List Char} {code code' : Nat} (isCode : unit? text = some code)
    (isCode' : unit? text' = some code') (same : text ++ rest = text' ++ rest') :
    code = code' ∧ rest = rest' := by
  obtain ⟨digits, four, rfl⟩ := eq_of_unit? isCode
  obtain ⟨digits', four', rfl⟩ := eq_of_unit? isCode'
  obtain ⟨sameText, sameRest⟩ := List.append_inj same (by simp [four, four'])
  rw [sameText, isCode'] at isCode
  exact ⟨(Option.some.inj isCode).symm, sameRest⟩

/-- The first half of a character stands for no character. -/
theorem not_half (character other : Char) :
    character.toNat ≠ 0xD800 + (other.toNat - 0x10000) / 0x400 := by
  have valid := character.valid
  have validOther := other.valid
  unfold UInt32.isValidChar Nat.isValidChar at valid validOther
  change character.val.toNat ≠ 0xD800 + (other.val.toNat - 0x10000) / 0x400
  omega

namespace Writes

variable {character other : Char} {written written' rest rest' : List Char}

/-- A character is written as itself, or begins with a backslash. -/
theorem plain_or_backslash (writes : Writes character written) :
    (written = [character] ∧ character ≠ '"' ∧ character ≠ '\\') ∨ ∃ more, written = '\\' :: more := by
  cases writes with
  | plain notQuote notBackslash => exact .inl ⟨rfl, notQuote, notBackslash⟩
  | letter => exact .inr ⟨_, rfl⟩
  | code isCode =>
      obtain ⟨digits, _, rfl⟩ := eq_of_unit? isCode
      exact .inr ⟨_, rfl⟩
  | codes _ isHigh =>
      obtain ⟨digits, _, rfl⟩ := eq_of_unit? isHigh
      exact .inr ⟨_, rfl⟩

theorem plain_unique (notBackslash : character ≠ '\\') (writes : Writes other written)
    (same : character :: rest = written ++ rest') : character = other ∧ rest = rest' := by
  rcases writes.plain_or_backslash with ⟨rfl, _⟩ | ⟨more, rfl⟩
  · exact List.cons.inj same
  · exact absurd (List.cons.inj same).1 notBackslash

/-- A letter stands for one character, and none begins a code. -/
theorem letter_unique {letter : Char} (isEscape : (letter, character) ∈ escapes) (writes : Writes other written)
    (same : '\\' :: letter :: rest = written ++ rest') : character = other ∧ rest = rest' := by
  have notCode : letter ≠ 'u' := (show ∀ escape ∈ escapes, escape.1 ≠ 'u' by decide) _ isEscape
  have single : ∀ first ∈ escapes, ∀ second ∈ escapes, first.1 = second.1 → first.2 = second.2 := by decide
  cases writes with
  | plain _ notBackslash => exact absurd (List.cons.inj same).1.symm notBackslash
  | @letter letter' isEscape' =>
      obtain ⟨rfl, sameRest⟩ := List.cons.inj (List.cons.inj same).2
      exact ⟨single _ isEscape _ isEscape' rfl, sameRest⟩
  | code isCode =>
      obtain ⟨digits, _, rfl⟩ := eq_of_unit? isCode
      exact absurd (List.cons.inj (List.cons.inj same).2).1 notCode
  | codes _ isHigh =>
      obtain ⟨digits, _, rfl⟩ := eq_of_unit? isHigh
      exact absurd (List.cons.inj (List.cons.inj same).2).1 notCode

theorem code_unique (isCode : unit? written = some character.toNat) (writes : Writes other written')
    (same : written ++ rest = written' ++ rest') : character = other ∧ rest = rest' := by
  cases writes with
  | plain _ notBackslash =>
      have ⟨isOther, sameRest⟩ := plain_unique notBackslash (.code isCode) same.symm
      exact ⟨isOther.symm, sameRest.symm⟩
  | letter isEscape =>
      have ⟨isOther, sameRest⟩ := letter_unique isEscape (.code isCode) same.symm
      exact ⟨isOther.symm, sameRest.symm⟩
  | code isCode' =>
      have ⟨sameCode, sameRest⟩ := unit?_append_inj isCode isCode' same
      exact ⟨Char.toNat_inj.mp sameCode, sameRest⟩
  | codes _ isHigh =>
      -- The code of one character would be the first half of another.
      rw [List.append_assoc] at same
      exact absurd (unit?_append_inj isCode isHigh same).1 (not_half character other)

/-- No two characters are written alike. -/
theorem unique (writes : Writes character written) (writes' : Writes other written')
    (same : written ++ rest = written' ++ rest') : character = other ∧ rest = rest' := by
  cases writes with
  | plain _ notBackslash => exact plain_unique notBackslash writes' same
  | letter isEscape => exact letter_unique isEscape writes' same
  | code isCode => exact code_unique isCode writes' same
  | codes beyond isHigh isLow =>
      cases writes' with
      | plain _ notBackslash =>
          have ⟨isOther, sameRest⟩ := plain_unique notBackslash (.codes beyond isHigh isLow) same.symm
          exact ⟨isOther.symm, sameRest.symm⟩
      | letter isEscape =>
          have ⟨isOther, sameRest⟩ := letter_unique isEscape (.codes beyond isHigh isLow) same.symm
          exact ⟨isOther.symm, sameRest.symm⟩
      | code isCode =>
          have ⟨isOther, sameRest⟩ := code_unique isCode (.codes beyond isHigh isLow) same.symm
          exact ⟨isOther.symm, sameRest.symm⟩
      | codes beyond' isHigh' isLow' =>
          rw [List.append_assoc, List.append_assoc] at same
          have ⟨sameHigh, sameBehind⟩ := unit?_append_inj isHigh isHigh' same
          have ⟨sameLow, sameRest⟩ := unit?_append_inj isLow isLow' sameBehind
          exact ⟨Char.toNat_inj.mp (by omega), sameRest⟩

end Writes

/-! ## Strings -/

/-- Characters between quotes are those of one string. -/
theorem Characters.unique {content content' text rest rest' : List Char} (reads : Characters content text rest)
    (reads' : Characters content' text rest') : content = content' ∧ rest = rest' := by
  have noQuote {character : Char} {written between behind : List Char} (writes : Writes character written)
      (same : '"' :: behind = written ++ between) : False := by
    rcases writes.plain_or_backslash with ⟨rfl, notQuote, _⟩ | ⟨more, rfl⟩
    · exact notQuote (List.cons.inj same).1.symm
    · exact absurd (List.cons.inj same).1 (by decide)
  induction content generalizing text content' with
  | nil =>
      cases content' with
      | nil => exact ⟨rfl, (List.cons.inj (reads.symm.trans reads')).2⟩
      | cons character' others' =>
          obtain ⟨written', between', writes', isText', _⟩ := reads'
          exact (noQuote writes' (reads.symm.trans isText')).elim
  | cons character others inductionHypothesis =>
      obtain ⟨written, between, writes, isText, readsOthers⟩ := reads
      cases content' with
      | nil => exact (noQuote writes (reads'.symm.trans isText)).elim
      | cons character' others' =>
          obtain ⟨written', between', writes', isText', readsOthers'⟩ := reads'
          obtain ⟨sameCharacter, rfl⟩ := writes.unique writes' (isText.symm.trans isText')
          have ⟨sameOthers, sameRest⟩ := inductionHypothesis readsOthers readsOthers'
          exact ⟨congrArg₂ List.cons sameCharacter sameOthers, sameRest⟩

/-! ## What is written for a string -/

/-- The writer's escapes are those of the grammar. -/
theorem writes_escape (character : Char) : Writes character (Document.escape character) := by
  have controls : ∀ code < 0x20, unit? ('\\' :: 'u' :: Text.hexDigits code 4) = some code := by decide
  unfold Document.escape
  split
  · rename_i isMark
    simp only [Bool.or_eq_true, decide_eq_true_eq] at isMark
    rcases isMark with rfl | rfl <;> exact .letter (by decide)
  split
  · exact .letter (by simp [escapes, *])
  split
  · exact .letter (by simp [escapes, *])
  split
  · exact .letter (by simp [escapes, *])
  split
  · exact .letter (by simp [escapes, *])
  split
  · exact .letter (by simp [escapes, *])
  split
  · exact .code (controls character.toNat ‹_›)
  · rename_i notMark _ _ _ _ _ notControl
    simp only [Bool.or_eq_true, decide_eq_true_eq, not_or] at notMark
    exact .plain notMark.1 notMark.2 (Nat.le_of_not_lt notControl)

theorem characters_escape (content rest : List Char) :
    Characters content (content.flatMap Document.escape ++ '"' :: rest) rest := by
  induction content with
  | nil => rfl
  | cons character others inductionHypothesis =>
      exact ⟨_, _, writes_escape character, by rw [List.flatMap_cons, List.append_assoc], inductionHypothesis⟩

/-- What is written for a string is a string of the grammar, and no other one. -/
theorem quoted_writeString {content content' : String} {rest rest' : List Char} :
    Quoted content' (Document.writeString content ++ rest) rest' ↔ content' = content ∧ rest' = rest := by
  have inside : Document.writeString content ++ rest =
      '"' :: (content.toList.flatMap Document.escape ++ '"' :: rest) := by
    rw [Document.writeString, List.append_assoc, List.cons_append]
    rfl
  rw [inside]
  constructor
  · rintro ⟨text, isText, reads⟩
    obtain rfl := (List.cons.inj isText).2
    have ⟨sameContent, sameRest⟩ := reads.unique (characters_escape content.toList rest)
    exact ⟨String.toList_inj.mp sameContent, sameRest⟩
  · rintro ⟨rfl, rfl⟩
    exact ⟨_, rfl, characters_escape content'.toList rest'⟩

end LoxInterpreter.Json
