import LoxInterpreter.Proofs.Document.Brackets
import LoxInterpreter.Proofs.Document.Equality
import LoxInterpreter.Proofs.Document.Strings

/-!
Contract: what is written for a document is a text that denotes it, as long as all its numbers are finite.

A value shows by its first character of which kind it is, and ends where its characters end; so what is written
is read in one way at most. Numbers that are not finite are written as words that begin no value, and a document
with one of them denotes nothing.

Owns: `Finite`, `Written`, and `denotes_text`.
Does not own: strings, numbers and lists by themselves (`Proofs.Document.Strings`, `Proofs.Document.Numerals`,
`Proofs.Document.Brackets`).
-/

namespace LoxInterpreter.Json

/-- Whether all numbers in a document are finite. -/
def Finite (document : Document) : Prop := ∀ value ∈ document.reals, value.isFinite = true

/-! ## How values begin -/

/-- Whether a value of the kind of a document can begin with a character. -/
def begins (character : Char) : Document → Bool
  | .null => character == 'n'
  | .boolean value => character == if value then 't' else 'f'
  | .whole _ | .real _ => character == '-' || character.isDigit
  | .string _ => character == '"'
  | .array _ => character == '['
  | .object _ => character == '\x7b'

/-- No value begins with what can stand behind one. -/
theorem not_delimiter {document : Document} {first : Char} (isBegin : begins first document = true) :
    first ∉ delimiters := by
  intro isDelimiter
  simp only [delimiters, blanks, List.cons_append, List.nil_append, List.mem_cons, List.not_mem_nil, or_false]
    at isDelimiter
  rcases isDelimiter with rfl | rfl | rfl | rfl | rfl | rfl | rfl <;> cases document <;>
    first | (rename_i value; cases value <;> cases isBegin) | cases isBegin

theorem begins_numeral (numeral : Numeral) (rest : List Char) :
    ∃ first more, numeral.text ++ rest = first :: more ∧ (first == '-' || first.isDigit) = true := by
  obtain ⟨digit, more, isDigit, isText⟩ := numeral.text_eq
  rw [isText]
  cases numeral.isNegative with
  | true => exact ⟨'-', _, rfl, rfl⟩
  | false => exact ⟨digit, _, rfl, by rw [isDigit, Bool.or_true]⟩

theorem begun_numeral (numeral : Numeral) : Begun numeral.text := by
  obtain ⟨first, more, isText, isNumber⟩ := begins_numeral numeral []
  rw [List.append_nil] at isText
  exact ⟨first, more, isText, @not_delimiter (.whole 0) first isNumber⟩

namespace Value

variable {document : Document} {text rest : List Char}

theorem exists_begins (reads : Value document text rest) :
    ∃ first more, text = first :: more ∧ begins first document = true := by
  cases document with
  | null => exact ⟨'n', _, reads, rfl⟩
  | boolean value => cases value <;> exact ⟨_, _, reads, rfl⟩
  | whole value =>
      obtain ⟨numeral, _, _, rfl⟩ := reads
      exact begins_numeral numeral rest
  | real value =>
      obtain ⟨numeral, _, _, rfl⟩ := reads
      exact begins_numeral numeral rest
  | string value =>
      obtain ⟨inside, rfl, _⟩ := reads
      exact ⟨'"', inside, rfl, rfl⟩
  | array items =>
      obtain ⟨inside, rfl, _⟩ := reads
      exact ⟨'[', inside, rfl, rfl⟩
  | object fields =>
      obtain ⟨inside, rfl, _⟩ := reads
      exact ⟨'\x7b', inside, rfl, rfl⟩

/-- The character at the front tells which kind of value it is. -/
theorem begins_cons {first : Char} {more : List Char} (reads : Value document (first :: more) rest) :
    begins first document = true := by
  obtain ⟨first', more', same, isBegin⟩ := reads.exists_begins
  rwa [(List.cons.inj same).1]

theorem begun (reads : Value document text rest) : Begun text := by
  obtain ⟨first, more, isText, isBegin⟩ := reads.exists_begins
  exact ⟨first, more, isText, not_delimiter isBegin⟩

theorem notBlank (reads : Value document text rest) : NotBlank text := by
  have starts := reads.begun.notBlank []
  rwa [List.append_nil] at starts

/-- Where a number stands, there is a number. -/
theorem of_numeral {numeral : Numeral} {rest rest' : List Char} (delimited : Delimited rest)
    (delimited' : Delimited rest') (reads : Value document (numeral.text ++ rest) rest') : rest' = rest ∧
      ((numeral.IsWhole ∧ document = .whole (Nat.ofDigitChars 10 numeral.whole 0)) ∨
        ∃ value, ¬ numeral.IsWhole ∧ numeral.IsNearest value ∧ document = .real value) := by
  obtain ⟨first, more, isText, isNumber⟩ := begins_numeral numeral rest
  obtain ⟨first', more', isText', isBegin⟩ := reads.exists_begins
  obtain rfl := (List.cons.inj (isText.symm.trans isText')).1
  have notLetter : first ∉ ['n', 't', 'f', '"', '[', '\x7b'] := by
    intro isLetter
    simp only [List.mem_cons, List.not_mem_nil, or_false] at isLetter
    rcases isLetter with rfl | rfl | rfl | rfl | rfl | rfl <;> cases isNumber
  cases document with
  | whole value =>
      obtain ⟨numeral', isWhole, isValue, same⟩ := reads
      obtain ⟨rfl, sameRest⟩ := Numeral.text_append_inj delimited delimited' same
      exact ⟨sameRest.symm, .inl ⟨isWhole, congrArg Document.whole isValue⟩⟩
  | real value =>
      obtain ⟨numeral', notWhole, nearest, same⟩ := reads
      obtain ⟨rfl, sameRest⟩ := Numeral.text_append_inj delimited delimited' same
      exact ⟨sameRest.symm, .inr ⟨value, notWhole, nearest, rfl⟩⟩
  | boolean value => cases value <;> simp_all [begins]
  | _ => simp_all [begins]

end Value

/-! ## What is written for a single value -/

/-- Whether characters, in front of whatever can stand behind a value, denote a document and no other one if
its numbers are finite, and nothing if not. -/
structure Written (text : List Char) (document : Document) : Prop where
  begun : Begun text
  exact : ∀ {document' rest rest'}, Delimited rest → Delimited rest' →
    (Value document' (text ++ rest) rest' ↔ Finite document ∧ document' = document ∧ rest' = rest)

/-- Words are told by their first letters. -/
theorem written_word {document : Document} {first : Char} {more : List Char} (notDelimiter : first ∉ delimiters)
    (noNumbers : document.reals = [])
    (isWord : ∀ {text rest}, Value document text rest ↔ text = first :: more ++ rest)
    (only : ∀ document', begins first document' = true → document' = document) :
    Written (first :: more) document where
  begun := ⟨first, more, rfl, notDelimiter⟩
  exact {document' rest rest'} _ _ := by
    have finite : Finite document := by simp [Finite, noNumbers]
    constructor
    · intro reads
      obtain rfl := only document' reads.begins_cons
      exact ⟨finite, rfl, (List.append_cancel_left (isWord.mp reads)).symm⟩
    · rintro ⟨_, rfl, rfl⟩
      exact isWord.mpr rfl

theorem written_null : Written "null".toList .null :=
  written_word (by decide) rfl Iff.rfl fun document' isBegin => by
    cases document' with
    | null => rfl
    | boolean value => cases value <;> cases isBegin
    | _ => cases isBegin

theorem written_boolean (value : Bool) :
    Written (if value then "true" else "false").toList (.boolean value) := by
  have only {first : Char} {value : Bool} (isLetter : first = if value then 't' else 'f') (document' : Document)
      (isBegin : begins first document' = true) : document' = .boolean value := by
    subst isLetter
    cases document' with
    | boolean value' => cases value <;> cases value' <;> first | rfl | cases isBegin
    | _ => cases value <;> cases isBegin
  cases value with
  | false => exact written_word (by decide) rfl Iff.rfl (only rfl)
  | true => exact written_word (by decide) rfl Iff.rfl (only rfl)

theorem written_string (value : String) : Written (Document.writeString value) (.string value) where
  begun := ⟨'"', _, rfl, by decide⟩
  exact {document' rest rest'} _ _ := by
    have finite : Finite (.string value) := List.forall_mem_nil _
    constructor
    · intro reads
      have isBegin := Value.begins_cons reads
      cases document' with
      | string value' =>
          have ⟨sameValue, sameRest⟩ := quoted_writeString.mp reads
          exact ⟨finite, congrArg Document.string sameValue, sameRest⟩
      | boolean value => cases value <;> cases isBegin
      | _ => cases isBegin
    · rintro ⟨_, rfl, rfl⟩
      exact quoted_writeString.mpr ⟨rfl, rfl⟩

theorem written_whole (value : Nat) : Written (Number.decimalDigits value) (.whole value) := by
  obtain ⟨numeral, isWhole, isValue, isText⟩ := exists_whole value
  rw [← isText]
  refine ⟨begun_numeral numeral, fun {document' rest rest'} delimited delimited' => ⟨fun reads => ?_, ?_⟩⟩
  · have ⟨sameRest, denoted⟩ := reads.of_numeral delimited delimited'
    rcases denoted with ⟨_, isDocument⟩ | ⟨_, notWhole, _⟩
    · exact ⟨List.forall_mem_nil _, by rw [isDocument, isValue], sameRest⟩
    · exact absurd isWhole notWhole
  · rintro ⟨_, rfl, rfl⟩
    exact ⟨numeral, isWhole, isValue, rfl⟩

theorem finite_real (value : Float) : Finite (.real value) ↔ value.isFinite = true :=
  List.forall_mem_singleton

/-- A finite number is written as a number. -/
theorem written_finite {value : Float} (finite : value.isFinite = true) :
    Written (Number.Style.json.characters value) (.real value) := by
  obtain ⟨numeral, notWhole, nearest, isText⟩ := exists_real finite
  rw [← isText]
  refine ⟨begun_numeral numeral, fun {document' rest rest'} delimited delimited' => ⟨fun reads => ?_, ?_⟩⟩
  · have ⟨sameRest, denoted⟩ := reads.of_numeral delimited delimited'
    rcases denoted with ⟨isWhole, _⟩ | ⟨value', _, nearest', isDocument⟩
    · exact absurd isWhole notWhole
    · rw [← nearest.unique nearest'] at isDocument
      exact ⟨(finite_real value).mpr finite, isDocument, sameRest⟩
  · rintro ⟨_, rfl, rfl⟩
    exact ⟨numeral, notWhole, nearest, rfl⟩

/-- Infinity and NaN are written as words that begin no value. -/
theorem not_value {value : Float} (notFinite : value.isFinite = false) (document : Document)
    (rest rest' : List Char) : ¬ Value document (Number.Style.json.characters value ++ rest) rest' := by
  intro reads
  have isBegin : ∃ first ∈ ['I', 'N', '-'], begins first document = true := by
    have written := characters_not_finite notFinite
    simp only [List.mem_cons, List.not_mem_nil, or_false] at written
    rcases written with isWritten | isWritten | isWritten <;> rw [isWritten] at reads <;>
      exact ⟨_, by decide, reads.begins_cons⟩
  obtain ⟨first, isFirst, isBegin⟩ := isBegin
  simp only [List.mem_cons, List.not_mem_nil, or_false] at isFirst
  cases document with
  | whole value' =>
      obtain ⟨numeral, _, _, same⟩ := reads
      exact not_numeral notFinite numeral rest' rest same.symm
  | real value' =>
      obtain ⟨numeral, _, _, same⟩ := reads
      exact not_numeral notFinite numeral rest' rest same.symm
  | boolean value' => rcases isFirst with rfl | rfl | rfl <;> cases value' <;> cases isBegin
  | _ => rcases isFirst with rfl | rfl | rfl <;> cases isBegin

theorem written_not_finite {value : Float} (notFinite : value.isFinite = false) :
    Written (Number.Style.json.characters value) (.real value) where
  begun := by
    have written := characters_not_finite notFinite
    simp only [List.mem_cons, List.not_mem_nil, or_false] at written
    rcases written with isWritten | isWritten | isWritten <;> rw [isWritten] <;> exact ⟨_, _, rfl, by decide⟩
  exact {document' rest rest'} _ _ := by
    rw [finite_real, notFinite]
    exact iff_of_false (not_value notFinite document' rest rest') (by simp)

theorem written_real (value : Float) : Written (Number.Style.json.characters value) (.real value) := by
  cases isFinite : value.isFinite with
  | true => exact written_finite isFinite
  | false => exact written_not_finite isFinite

/-! ## Items and fields -/

/-- What is read as one item of an array. -/
def Item : Document → List Char → List Char → Prop := fun item => Padded (Value item)

/-- What is read as one field of an object. -/
def Member (field : String × Document) (text rest : List Char) : Prop :=
  ∃ behind, Padded (Quoted field.1) text (':' :: behind) ∧ Padded (Value field.2) behind rest

theorem items_iff_listed {items : List Document} {text rest : List Char} :
    Items items text rest ↔ Listed Item items text rest := by
  induction items generalizing text with
  | nil => exact Iff.rfl
  | cons first others inductionHypothesis =>
      cases others with
      | nil => exact Iff.rfl
      | cons second others => exact exists_congr fun between => and_congr_right fun _ => inductionHypothesis

theorem members_iff_listed {fields : List (String × Document)} {text rest : List Char} :
    Members fields text rest ↔ Listed Member fields text rest := by
  induction fields generalizing text with
  | nil => exact Iff.rfl
  | cons first others inductionHypothesis =>
      cases others with
      | nil => exact Iff.rfl
      | cons second others =>
          constructor
          · rintro ⟨behind, between, name, value, isRest⟩
            exact ⟨between, ⟨behind, name, value⟩, inductionHypothesis.mp isRest⟩
          · rintro ⟨between, ⟨behind, name, value⟩, isRest⟩
            exact ⟨behind, between, name, value, inductionHypothesis.mpr isRest⟩

theorem opened_item : Opened Item := by
  rintro item text rest ⟨start, stop, ⟨gap, areBlanks, isText⟩, reads, _⟩
  exact ⟨gap, start, isText, areBlanks, reads.begun⟩

theorem opened_member : Opened Member := by
  rintro field text rest ⟨behind, ⟨start, stop, ⟨gap, areBlanks, isText⟩, ⟨inside, isQuoted, _⟩, _⟩, _⟩
  exact ⟨gap, start, isText, areBlanks, '"', inside, isQuoted, by decide⟩

theorem Written.item {text : List Char} {document : Document} (written : Written text document) :
    Placed Item Finite text document where
  begun := written.begun
  exact {document' gap gap' ender ender' rest rest'} areBlanks areBlanks' isEnder isEnder' := by
    have ended := (delimited_ender isEnder rest).blanks_append areBlanks'
    have isPadded := @padded_iff gap gap' (ender :: rest) (ender' :: rest') (Value document')
      (Finite document ∧ document' = document) text Value.notBlank (fun stop isStop => by
        obtain ⟨behind, areBehind, rfl⟩ := isStop
        rw [written.exact ended ((delimited_ender isEnder' rest').blanks_append areBehind), and_assoc])
      areBlanks areBlanks' (written.begun.notBlank _) (notBlank_ender isEnder rest) (notBlank_ender isEnder' rest')
    rwa [List.cons.injEq, and_assoc] at isPadded

theorem padded_name {name name' : String} {gap behind behind' : List Char} (areBlanks : AreBlanks gap) :
    Padded (Quoted name') (gap ++ (Document.writeString name ++ ':' :: behind)) (':' :: behind') ↔
      name' = name ∧ behind' = behind := by
  have quote (inside : List Char) : NotBlank ('"' :: inside) := notBlank_cons (by decide) inside
  have colon (more : List Char) : NotBlank (':' :: more) := notBlank_cons (by decide) more
  have starts {start stop : List Char} (reads : Quoted name' start stop) : NotBlank start := by
    obtain ⟨inside, rfl, _⟩ := reads
    exact quote inside
  have isPadded := @padded_iff gap [] (':' :: behind) (':' :: behind') (Quoted name') (name' = name)
    (Document.writeString name) starts (fun stop _ => quoted_writeString) areBlanks areBlanks_nil (quote _)
    (colon behind) (colon behind')
  simpa using isPadded

theorem Written.member {text : List Char} {document : Document} (written : Written text document)
    (name : String) : Placed Member (fun field => Finite field.2)
      (Document.writeString name ++ (':' :: ' ' :: text)) (name, document) where
  begun := ⟨'"', _, rfl, by decide⟩
  exact {field' gap gap' ender ender' rest rest'} areBlanks areBlanks' isEnder isEnder' := by
    obtain ⟨name', document'⟩ := field'
    have blank : AreBlanks [' '] := by simp [AreBlanks, blanks]
    have isValue := @written.item.exact document' [' '] gap' ender ender' rest rest' blank areBlanks' isEnder
      isEnder'
    -- The name is read first; the blank behind the colon belongs to the value.
    unfold Member
    simp only [List.append_assoc, List.cons_append, padded_name areBlanks]
    constructor
    · rintro ⟨behind, ⟨rfl, rfl⟩, isRead⟩
      obtain ⟨finite, sameDocument, sameEnd⟩ := isValue.mp isRead
      exact ⟨finite, congrArg _ sameDocument, sameEnd⟩
    · rintro ⟨finite, sameField, sameEnd⟩
      obtain ⟨rfl, rfl⟩ := Prod.mk.inj sameField
      exact ⟨_, ⟨rfl, rfl⟩, isValue.mpr ⟨finite, rfl, sameEnd⟩⟩

/-! ## Arrays and objects -/

theorem finite_array (items : List Document) : Finite (.array items) ↔ ∀ item ∈ items, Finite item := by
  unfold Finite
  rw [Document.reals_array]
  induction items with
  | nil => simp
  | cons first rest inductionHypothesis =>
      rw [Document.listReals_cons, List.forall_mem_append, List.forall_mem_cons, inductionHypothesis]

theorem finite_object (fields : List (String × Document)) :
    Finite (.object fields) ↔ ∀ field ∈ fields, Finite field.2 := by
  unfold Finite
  rw [Document.reals_object]
  induction fields with
  | nil => simp
  | cons first rest inductionHypothesis =>
      rw [Document.fieldReals_cons, List.forall_mem_append, List.forall_mem_cons, inductionHypothesis]

/-- Parts between brackets, for a kind of document that is read as a list of parts. -/
theorem written_bracketed {Part : Type} {reads : Part → List Char → List Char → Prop} {holds : Part → Prop}
    {form : List Part → Document} {opening closing : Char} (notDelimiter : opening ∉ delimiters)
    (isClosing : closing ∈ [']', '\x7d']) (opened : Opened reads)
    (isForm : ∀ {parts text rest}, Value (form parts) text rest ↔
      ∃ inside, text = opening :: inside ∧ Listed reads parts inside (closing :: rest))
    (only : ∀ document, begins opening document = true → ∃ parts, document = form parts)
    {texts : List (List Char)} {parts : List Part} (placed : List.Forall₂ (Placed reads holds) texts parts)
    (finite : Finite (form parts) ↔ ∀ part ∈ parts, holds part) (depth : Nat) :
    Written (Document.bracketed opening closing depth texts) (form parts) := by
  obtain ⟨inside, isText⟩ : ∃ inside, Document.bracketed opening closing depth texts = opening :: inside := by
    cases texts <;> exact ⟨_, rfl⟩
  refine ⟨⟨opening, inside, isText, notDelimiter⟩, fun {document' rest rest'} _ _ => ?_⟩
  have isRead {parts' : List Part} := @bracketed_iff _ reads holds rest rest' closing texts parts parts' placed
    opened isClosing opening depth
  rw [finite]
  constructor
  · intro isValue
    obtain ⟨parts', rfl⟩ := only document' (by rw [isText] at isValue; exact isValue.begins_cons)
    have ⟨areHeld, same, sameRest⟩ := isRead.mp (isForm.mp isValue)
    exact ⟨areHeld, congrArg form same, sameRest⟩
  · rintro ⟨areHeld, same, sameRest⟩
    rw [same]
    exact isForm.mpr (isRead.mpr ⟨areHeld, rfl, sameRest⟩)

theorem written_array {items : List Document} {texts : List (List Char)}
    (placed : List.Forall₂ (Placed Item Finite) texts items) (depth : Nat) :
    Written (Document.bracketed '[' ']' depth texts) (.array items) := by
  refine written_bracketed (by decide) (by decide) opened_item ?_ (fun document isBegin => ?_) placed
    (finite_array items) depth
  · exact exists_congr fun inside => and_congr_right fun _ => items_iff_listed
  · cases document with
    | array items => exact ⟨items, rfl⟩
    | boolean value => cases value <;> cases isBegin
    | _ => cases isBegin

theorem written_object {fields : List (String × Document)} {texts : List (List Char)}
    (placed : List.Forall₂ (Placed Member fun field => Finite field.2) texts fields) (depth : Nat) :
    Written (Document.bracketed '\x7b' '\x7d' depth texts) (.object fields) := by
  refine written_bracketed (by decide) (by decide) opened_member ?_ (fun document isBegin => ?_) placed
    (finite_object fields) depth
  · exact exists_congr fun inside => and_congr_right fun _ => members_iff_listed
  · cases document with
    | object fields => exact ⟨fields, rfl⟩
    | boolean value => cases value <;> cases isBegin
    | _ => cases isBegin

/-! ## Documents -/

mutual

/-- What is written for a document denotes it, however deep it stands. -/
theorem written_write : (document : Document) → (depth : Nat) → Written (document.write depth) document
  | .null, _ => written_null
  | .boolean value, _ => written_boolean value
  | .whole value, _ => written_whole value
  | .real value, _ => written_real value
  | .string value, _ => written_string value
  | .array items, depth => written_array (placed_writeItems items (depth + 1)) depth
  | .object fields, depth => written_object (placed_writeFields fields (depth + 1)) depth

theorem placed_writeItems : (items : List Document) → (depth : Nat) →
    List.Forall₂ (Placed Item Finite) (Document.writeItems depth items) items
  | [], _ => .nil
  | first :: rest, depth => .cons (written_write first depth).item (placed_writeItems rest depth)

theorem placed_writeFields : (fields : List (String × Document)) → (depth : Nat) →
    List.Forall₂ (Placed Member fun field => Finite field.2) (Document.writeFields depth fields) fields
  | [], _ => .nil
  | (name, value) :: rest, depth =>
      .cons ((written_write value depth).member name) (placed_writeFields rest depth)

end

/-- What is written for a document denotes this document and no other one if its numbers are finite, and
nothing if not. -/
theorem denotes_text {document document' : Document} :
    Denotes document.text document' ↔ Finite document ∧ document' = document := by
  have written := written_write document 0
  have atEnd : NotBlank [] := fun _ isHead => nomatch isHead
  have delimited : Delimited [] := fun _ isHead => nomatch isHead
  have isPadded := @padded_iff [] [] [] [] (Value document') (Finite document ∧ document' = document)
    (document.write 0) Value.notBlank (fun stop isStop => by
      obtain ⟨behind, areBehind, rfl⟩ := isStop
      have isRead := @written.exact document' [] (behind ++ []) delimited (delimited.blanks_append areBehind)
      rwa [← and_assoc] at isRead)
    areBlanks_nil areBlanks_nil (written.begun.notBlank _) atEnd atEnd
  rw [Denotes, Document.text, String.toList_ofList]
  simpa using isPadded

end LoxInterpreter.Json
