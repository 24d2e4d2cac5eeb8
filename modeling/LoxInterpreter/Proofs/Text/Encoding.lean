import LoxInterpreter.Text.Encoding

/-!
Contract: which bytes are text, and where bytes stop being text.

Bytes are well-formed if they are sequences of the nine kinds that the Unicode Standard has, one after
another. These sequences are the encodings of the characters, so well-formed bytes encode a text, and only
one. No sequence begins another one, so what follows a first sequence is well-formed just if the whole is,
and the walk over the bytes, which stops where no sequence begins, takes the longest part that is
well-formed.

Owns: `IsSequence`, `WellFormed`, `IsLongestWellFormed`, `wellFormed_iff`, and `decode_toUTF8` and
`decode_eq_error`, which say what decoding gives.
Does not own: what is scanned from text (`Token.Scan`).
-/

namespace LoxInterpreter.Text

/-! ## Well-formed bytes -/

/-- The least and the greatest byte that may continue a sequence. -/
def continuation : Nat × Nat := (0x80, 0xBF)

/-- The kinds of sequences: the least and the greatest byte at each place. The second byte keeps overlong
forms, surrogates and what is above the last character out. -/
def sequenceKinds : List (List (Nat × Nat)) :=
  [[(0x00, 0x7F)],
    [(0xC2, 0xDF), continuation],
    [(0xE0, 0xE0), (0xA0, 0xBF), continuation],
    [(0xE1, 0xEC), continuation, continuation],
    [(0xED, 0xED), (0x80, 0x9F), continuation],
    [(0xEE, 0xEF), continuation, continuation],
    [(0xF0, 0xF0), (0x90, 0xBF), continuation, continuation],
    [(0xF1, 0xF3), continuation, continuation, continuation],
    [(0xF4, 0xF4), (0x80, 0x8F), continuation, continuation]]

/-- Whether bytes are of a kind: as many as it has places, and each in the range of its place. -/
def IsOfKind : List UInt8 → List (Nat × Nat) → Prop
  | [], [] => True
  | byte :: bytes, (least, greatest) :: ranges =>
      (least ≤ byte.toNat ∧ byte.toNat ≤ greatest) ∧ IsOfKind bytes ranges
  | _, _ => False

/-- Whether bytes are a sequence of one of the kinds. -/
def IsSequence (bytes : List UInt8) : Prop := ∃ kind ∈ sequenceKinds, IsOfKind bytes kind

instance decidableIsOfKind : (bytes : List UInt8) → (kind : List (Nat × Nat)) → Decidable (IsOfKind bytes kind)
  | [], [] => isTrue trivial
  | byte :: bytes, (least, greatest) :: ranges =>
      have := decidableIsOfKind bytes ranges
      inferInstanceAs (Decidable ((least ≤ byte.toNat ∧ byte.toNat ≤ greatest) ∧ IsOfKind bytes ranges))
  | [], _ :: _ => isFalse id
  | _ :: _, [] => isFalse id

instance (bytes : List UInt8) : Decidable (IsSequence bytes) :=
  inferInstanceAs (Decidable (∃ kind ∈ sequenceKinds, IsOfKind bytes kind))

/-- Whether bytes are sequences, one after another. -/
inductive WellFormed : List UInt8 → Prop
  | nil : WellFormed []
  | append {bytes rest : List UInt8} (isSequence : IsSequence bytes) (wellFormed : WellFormed rest) :
      WellFormed (bytes ++ rest)

/-- How many of some bytes are the longest part at their front that is well-formed. -/
structure IsLongestWellFormed (count : Nat) (bytes : List UInt8) : Prop where
  le_length : count ≤ bytes.length
  wellFormed : WellFormed (bytes.take count)
  longest : ∀ other ≤ bytes.length, WellFormed (bytes.take other) → other ≤ count

/-! ## Sequences are the encodings of characters -/

theorem isOfKind_cons {bytes : List UInt8} {least greatest : Nat} {ranges : List (Nat × Nat)}
    (isOfKind : IsOfKind bytes ((least, greatest) :: ranges)) :
    ∃ byte rest, bytes = byte :: rest ∧ (least ≤ byte.toNat ∧ byte.toNat ≤ greatest) ∧ IsOfKind rest ranges := by
  cases bytes with
  | nil => exact isOfKind.elim
  | cons byte rest => exact ⟨byte, rest, rfl, isOfKind⟩

theorem isOfKind_nil {bytes : List UInt8} (isOfKind : IsOfKind bytes []) : bytes = [] := by
  cases bytes with
  | nil => rfl
  | cons byte rest => exact isOfKind.elim

theorem isSequence_encode (character : Char) : IsSequence (String.utf8EncodeChar character) := by
  have isScalar : character.val.toNat < 0xD800 ∨ 0xDFFF < character.val.toNat ∧ character.val.toNat < 0x110000 :=
    character.valid
  unfold String.utf8EncodeChar
  generalize character.val.toNat = value at *
  dsimp only
  have among {bytes : List UInt8} (place : Nat) (inside : place < sequenceKinds.length)
      (isOfKind : IsOfKind bytes sequenceKinds[place]) : IsSequence bytes :=
    ⟨_, List.getElem_mem inside, isOfKind⟩
  split
  · refine among 0 (by decide) ?_
    simp [sequenceKinds, IsOfKind]
    omega
  split
  · refine among 1 (by decide) ?_
    simp [sequenceKinds, continuation, IsOfKind]
    omega
  split
  · rcases (by omega : value < 0x1000 ∨ 0x1000 ≤ value ∧ value < 0xD000 ∨ 0xD000 ≤ value ∧ value < 0xD800 ∨
      0xE000 ≤ value) with least | middle | beforeSurrogates | behindSurrogates
    · refine among 2 (by decide) ?_
      simp [sequenceKinds, continuation, IsOfKind]
      omega
    · refine among 3 (by decide) ?_
      simp [sequenceKinds, continuation, IsOfKind]
      omega
    · refine among 4 (by decide) ?_
      simp [sequenceKinds, continuation, IsOfKind]
      omega
    · refine among 5 (by decide) ?_
      simp [sequenceKinds, continuation, IsOfKind]
      omega
  · rcases (by omega : value < 0x40000 ∨ 0x40000 ≤ value ∧ value < 0x100000 ∨ 0x100000 ≤ value) with
      least | middle | greatest
    · refine among 6 (by decide) ?_
      simp [sequenceKinds, continuation, IsOfKind]
      omega
    · refine among 7 (by decide) ?_
      simp [sequenceKinds, continuation, IsOfKind]
      omega
    · refine among 8 (by decide) ?_
      simp [sequenceKinds, continuation, IsOfKind]
      omega

/-- Every scalar value is a character. -/
theorem exists_character {value : Nat} (isScalar : value < 0xD800 ∨ 0xDFFF < value ∧ value < 0x110000) :
    ∃ character : Char, character.val.toNat = value :=
  ⟨Char.ofNatAux value isScalar, rfl⟩

theorem byte_eq {value : Nat} {byte : UInt8} (same : value % 256 = byte.toNat) : UInt8.ofNat value = byte := by
  rw [← UInt8.toNat_inj, UInt8.toNat_ofNat', same]

section Kinds

variable {bytes : List UInt8} {first second : Nat × Nat}

theorem exists_encode_one (isOfKind : IsOfKind bytes [first]) (isFirst : first.2 ≤ 0x7F) :
    ∃ character, String.utf8EncodeChar character = bytes := by
  obtain ⟨lead, _, rfl, inFirst, ends⟩ := isOfKind_cons isOfKind
  obtain rfl := isOfKind_nil ends
  obtain ⟨character, isValue⟩ := @exists_character lead.toNat (by omega)
  refine ⟨character, ?_⟩
  unfold String.utf8EncodeChar
  rw [isValue]
  dsimp only
  rw [if_pos (by omega), List.cons.injEq]
  exact ⟨byte_eq (by omega), rfl⟩

theorem exists_encode_two (isOfKind : IsOfKind bytes [first, continuation])
    (isFirst : 0xC2 ≤ first.1 ∧ first.2 ≤ 0xDF) : ∃ character, String.utf8EncodeChar character = bytes := by
  obtain ⟨lead, _, rfl, inFirst, behind⟩ := isOfKind_cons isOfKind
  obtain ⟨last, _, rfl, inLast, ends⟩ := isOfKind_cons behind
  obtain rfl := isOfKind_nil ends
  obtain ⟨character, isValue⟩ :=
    @exists_character ((lead.toNat - 0xC0) * 64 + (last.toNat - 0x80)) (by omega)
  refine ⟨character, ?_⟩
  unfold String.utf8EncodeChar
  rw [isValue]
  dsimp only
  rw [if_neg (by omega), if_pos (by omega), List.cons.injEq, List.cons.injEq]
  exact ⟨byte_eq (by omega), byte_eq (by omega), rfl⟩

theorem exists_encode_three (isOfKind : IsOfKind bytes [first, second, continuation])
    (isFirst : 0xE0 ≤ first.1 ∧ first.2 ≤ 0xEF) (isSecond : 0x80 ≤ second.1 ∧ second.2 ≤ 0xBF)
    (notOverlong : 0xE0 < first.1 ∨ 0xA0 ≤ second.1)
    (noSurrogate : first.2 < 0xED ∨ 0xED < first.1 ∨ second.2 ≤ 0x9F) :
    ∃ character, String.utf8EncodeChar character = bytes := by
  obtain ⟨lead, _, rfl, inFirst, behindLead⟩ := isOfKind_cons isOfKind
  obtain ⟨next, _, rfl, inSecond, behindNext⟩ := isOfKind_cons behindLead
  obtain ⟨last, _, rfl, inLast, ends⟩ := isOfKind_cons behindNext
  obtain rfl := isOfKind_nil ends
  obtain ⟨character, isValue⟩ := @exists_character
    ((lead.toNat - 0xE0) * 4096 + (next.toNat - 0x80) * 64 + (last.toNat - 0x80)) (by omega)
  refine ⟨character, ?_⟩
  unfold String.utf8EncodeChar
  rw [isValue]
  dsimp only
  rw [if_neg (by omega), if_neg (by omega), if_pos (by omega), List.cons.injEq, List.cons.injEq,
    List.cons.injEq]
  exact ⟨byte_eq (by omega), byte_eq (by omega), byte_eq (by omega), rfl⟩

theorem exists_encode_four (isOfKind : IsOfKind bytes [first, second, continuation, continuation])
    (isFirst : 0xF0 ≤ first.1 ∧ first.2 ≤ 0xF4) (isSecond : 0x80 ≤ second.1 ∧ second.2 ≤ 0xBF)
    (notOverlong : 0xF0 < first.1 ∨ 0x90 ≤ second.1) (inRange : first.2 < 0xF4 ∨ second.2 ≤ 0x8F) :
    ∃ character, String.utf8EncodeChar character = bytes := by
  obtain ⟨lead, _, rfl, inFirst, behindLead⟩ := isOfKind_cons isOfKind
  obtain ⟨next, _, rfl, inSecond, behindNext⟩ := isOfKind_cons behindLead
  obtain ⟨third, _, rfl, inThird, behindThird⟩ := isOfKind_cons behindNext
  obtain ⟨last, _, rfl, inLast, ends⟩ := isOfKind_cons behindThird
  obtain rfl := isOfKind_nil ends
  obtain ⟨character, isValue⟩ := @exists_character ((lead.toNat - 0xF0) * 262144 +
    (next.toNat - 0x80) * 4096 + (third.toNat - 0x80) * 64 + (last.toNat - 0x80)) (by omega)
  refine ⟨character, ?_⟩
  unfold String.utf8EncodeChar
  rw [isValue]
  dsimp only
  rw [if_neg (by omega), if_neg (by omega), if_neg (by omega), List.cons.injEq, List.cons.injEq,
    List.cons.injEq, List.cons.injEq]
  exact ⟨byte_eq (by omega), byte_eq (by omega), byte_eq (by omega), byte_eq (by omega), rfl⟩

end Kinds

/-- The sequences are the encodings of the characters. -/
theorem isSequence_iff {bytes : List UInt8} :
    IsSequence bytes ↔ ∃ character : Char, String.utf8EncodeChar character = bytes := by
  constructor
  · rintro ⟨kind, member, isOfKind⟩
    simp only [sequenceKinds, List.mem_cons, List.not_mem_nil, or_false] at member
    rcases member with rfl | rfl | rfl | rfl | rfl | rfl | rfl | rfl | rfl
    · exact exists_encode_one isOfKind (by decide)
    · exact exists_encode_two isOfKind (by decide)
    · exact exists_encode_three isOfKind (by decide) (by decide) (by decide) (by decide)
    · exact exists_encode_three isOfKind (by decide) (by decide) (by decide) (by decide)
    · exact exists_encode_three isOfKind (by decide) (by decide) (by decide) (by decide)
    · exact exists_encode_three isOfKind (by decide) (by decide) (by decide) (by decide)
    · exact exists_encode_four isOfKind (by decide) (by decide) (by decide) (by decide)
    · exact exists_encode_four isOfKind (by decide) (by decide) (by decide) (by decide)
    · exact exists_encode_four isOfKind (by decide) (by decide) (by decide) (by decide)
  · rintro ⟨character, rfl⟩
    exact isSequence_encode character

/-- An overlong form, a surrogate and what is above the last character are no sequences. -/
example : ¬ IsSequence [0xC0, 0x80] ∧ ¬ IsSequence [0xED, 0xA0, 0x80] ∧ ¬ IsSequence [0xF4, 0x90, 0x80, 0x80] := by
  decide

/-- Bytes are well-formed just if they encode characters. -/
theorem wellFormed_iff {bytes : List UInt8} :
    WellFormed bytes ↔ ∃ characters : List Char, characters.flatMap String.utf8EncodeChar = bytes := by
  constructor
  · intro wellFormed
    induction wellFormed with
    | nil => exact ⟨[], rfl⟩
    | append isSequence _ inductionHypothesis =>
        obtain ⟨character, rfl⟩ := isSequence_iff.mp isSequence
        obtain ⟨characters, rfl⟩ := inductionHypothesis
        exact ⟨character :: characters, rfl⟩
  · rintro ⟨characters, rfl⟩
    induction characters with
    | nil => exact .nil
    | cons character characters inductionHypothesis =>
        exact .append (isSequence_encode character) inductionHypothesis

/-! ## The longest part that is well-formed -/

/-- The character that some bytes begin with, if they begin with one. -/
def firstCharacter? (bytes : List UInt8) : Option Char := bytes.toByteArray.utf8DecodeChar? 0

theorem firstCharacter?_encode (character : Char) (rest : List UInt8) :
    firstCharacter? (String.utf8EncodeChar character ++ rest) = some character := by
  rw [firstCharacter?, List.toByteArray_append]
  exact ByteArray.utf8DecodeChar?_utf8EncodeChar_append

theorem exists_rest_of_firstCharacter? {bytes : List UInt8} {character : Char}
    (begins : firstCharacter? bytes = some character) :
    ∃ rest, bytes = String.utf8EncodeChar character ++ rest := by
  obtain ⟨rest, split⟩ := ByteArray.exists_of_utf8DecodeChar?_eq_some begins
  refine ⟨rest.data.toList, ?_⟩
  have sameList := congrArg (fun array : ByteArray => array.data.toList) split
  simpa using sameList

/-- No sequence begins another one, so that what follows the first one is well-formed if the whole is. -/
theorem WellFormed.behind {character : Char} {rest : List UInt8}
    (wellFormed : WellFormed (String.utf8EncodeChar character ++ rest)) : WellFormed rest := by
  obtain ⟨characters, encoded⟩ := wellFormed_iff.mp wellFormed
  have begins := firstCharacter?_encode character rest
  cases characters with
  | nil =>
      rw [← encoded] at begins
      cases begins
  | cons first others =>
      rw [List.flatMap_cons] at encoded
      rw [← encoded, firstCharacter?_encode] at begins
      cases begins
      exact wellFormed_iff.mpr ⟨others, List.append_cancel_left encoded⟩

theorem isLongestWellFormed_zero {bytes : List UInt8} (noCharacter : firstCharacter? bytes = none) :
    IsLongestWellFormed 0 bytes := by
  refine ⟨Nat.zero_le _, .nil, fun other inside wellFormed => ?_⟩
  obtain ⟨characters, encoded⟩ := wellFormed_iff.mp wellFormed
  cases characters with
  | nil =>
      rw [List.flatMap_nil, eq_comm, List.take_eq_nil_iff] at encoded
      rcases encoded with isZero | isEmpty
      · exact Nat.le_of_eq isZero
      · rwa [isEmpty] at inside
  | cons first others =>
      rw [List.flatMap_cons] at encoded
      have split : bytes = String.utf8EncodeChar first ++
          (others.flatMap String.utf8EncodeChar ++ bytes.drop other) := by
        rw [← List.append_assoc, encoded, List.take_append_drop]
      rw [split, firstCharacter?_encode] at noCharacter
      cases noCharacter

theorem IsLongestWellFormed.unique {count other : Nat} {bytes : List UInt8}
    (first : IsLongestWellFormed count bytes) (second : IsLongestWellFormed other bytes) : count = other :=
  Nat.le_antisymm (second.longest count first.le_length first.wellFormed)
    (first.longest other second.le_length second.wellFormed)

theorem IsLongestWellFormed.append {rest : List UInt8} {count : Nat}
    (longest : IsLongestWellFormed count rest) (character : Char) :
    IsLongestWellFormed (character.utf8Size + count) (String.utf8EncodeChar character ++ rest) := by
  have size := String.length_utf8EncodeChar character
  refine ⟨?_, ?_, fun other inside wellFormed => ?_⟩
  · have := longest.le_length
    rw [List.length_append]
    omega
  · rw [List.take_append, size, Nat.add_sub_cancel_left, List.take_of_length_le (by omega)]
    exact .append (isSequence_encode character) longest.wellFormed
  · rw [List.length_append] at inside
    rcases Nat.lt_or_ge other character.utf8Size with before | behind
    · omega
    · rw [List.take_append, size, List.take_of_length_le (by omega)] at wellFormed
      have := longest.longest (other - character.utf8Size) (by omega) wellFormed.behind
      omega

/-! ## Bytes of an array -/

theorem toList_eq (bytes : ByteArray) : bytes.toList = bytes.data.toList := by
  have loops (start : Nat) (taken : List UInt8) :
      ByteArray.toList.loop bytes start taken = taken.reverse ++ bytes.data.toList.drop start := by
    fun_induction ByteArray.toList.loop bytes start taken with
    | case1 start taken inside inductionHypothesis =>
        have inList : start < bytes.data.toList.length := inside
        have isByte : bytes.get! start = bytes.data.toList[start] := getElem!_pos bytes.data start inside
        rw [inductionHypothesis, isByte, List.drop_eq_getElem_cons inList]
        simp
    | case2 start taken outside =>
        have isEnd : bytes.data.toList.length ≤ start := Nat.le_of_not_lt outside
        rw [List.drop_eq_nil_of_le isEnd, List.append_nil]
  exact loops 0 []

theorem utf8DecodeChar?_eq (bytes : ByteArray) (start : Nat) :
    bytes.utf8DecodeChar? start = firstCharacter? (bytes.toList.drop start) := by
  have sameBytes : (bytes.toList.drop start).toByteArray = bytes.extract start bytes.size := by
    have isEnd : (bytes.data.toList.drop start).length ≤ bytes.size - start := by
      rw [List.length_drop]
      exact Nat.le_refl _
    apply ByteArray.ext
    apply Array.toList_inj.mp
    rw [List.toList_data_toByteArray, ByteArray.data_extract, toList_eq, Array.toList_extract, List.extract,
      List.take_of_length_le isEnd]
  rw [firstCharacter?, sameBytes]
  exact ByteArray.utf8DecodeChar?_eq_utf8DecodeChar?_extract

/-- From every position the walk goes as far as the bytes behind it are well-formed. -/
theorem exists_validEnd_eq (bytes : ByteArray) (start : Nat) :
    ∃ count, validEnd bytes start = start + count ∧ IsLongestWellFormed count (bytes.toList.drop start) := by
  fun_induction validEnd bytes start with
  | case1 start noCharacter =>
      rw [utf8DecodeChar?_eq] at noCharacter
      exact ⟨0, rfl, isLongestWellFormed_zero noCharacter⟩
  | case2 start character begins inside inductionHypothesis =>
      obtain ⟨count, isEnd, longest⟩ := inductionHypothesis
      rw [utf8DecodeChar?_eq] at begins
      obtain ⟨rest, split⟩ := exists_rest_of_firstCharacter? begins
      have behind : bytes.toList.drop (start + character.utf8Size) = rest := by
        rw [← List.drop_drop, split, ← String.length_utf8EncodeChar, List.drop_left]
      rw [behind] at longest
      refine ⟨character.utf8Size + count, by rw [isEnd, Nat.add_assoc], ?_⟩
      rw [split]
      exact longest.append character
  | case3 start character begins outside =>
      have isSome : (bytes.utf8DecodeChar? start).isSome = true := by rw [begins]; rfl
      exact absurd (ByteArray.lt_size_of_isSome_utf8DecodeChar? isSome) outside

theorem validLength_isLongestWellFormed (bytes : ByteArray) :
    IsLongestWellFormed (validLength bytes) bytes.toList := by
  obtain ⟨count, isEnd, longest⟩ := exists_validEnd_eq bytes 0
  rwa [validLength, isEnd, Nat.zero_add]

/-! ## Decoding -/

/-- Bytes are well-formed just if they encode a text. -/
theorem wellFormed_toList_iff {bytes : ByteArray} : WellFormed bytes.toList ↔ bytes.IsValidUTF8 := by
  rw [wellFormed_iff, toList_eq]
  constructor
  · rintro ⟨characters, encoded⟩
    refine ⟨characters, ByteArray.ext (Array.toList_inj.mp ?_)⟩
    rw [List.utf8Encode, List.toList_data_toByteArray, encoded]
  · rintro ⟨characters, rfl⟩
    exact ⟨characters, by rw [List.utf8Encode, List.toList_data_toByteArray]⟩

/-- Encoded text is decoded to itself. -/
theorem decode_toUTF8 (text : String) : decode text.toUTF8 = .ok text := by
  have decoded : String.fromUTF8? text.toUTF8 = some text := dif_pos text.isValidUTF8
  rw [decode, decoded]

/-- Bytes that are not well-formed are refused, on the line on which their longest well-formed part ends. -/
theorem decode_eq_error {bytes : ByteArray} (notWellFormed : ¬ WellFormed bytes.toList) :
    decode bytes = .error (1 + (bytes.toList.take (validLength bytes)).count 10) := by
  have notDecoded : String.fromUTF8? bytes = none :=
    dif_neg fun isValid => notWellFormed (wellFormed_toList_iff.mpr isValid)
  have isFront : (bytes.extract 0 (validLength bytes)).toList = bytes.toList.take (validLength bytes) := by
    rw [toList_eq, toList_eq, ByteArray.data_extract, Array.toList_extract]
    rfl
  rw [decode, notDecoded, lineFeedsBefore, isFront]

end LoxInterpreter.Text
