import LoxInterpreter.Proofs.Text.Encoding
import LoxInterpreter.Token.Scan

/-!
Contract: bytes are scanned as the text that they encode.

What is well-formed encodes a text, and is scanned to the same tokens, or with the same mistake. What is not
is scanned to no tokens at all, and the mistake is on the line on which its longest well-formed part ends.

Owns: `Source.scan_bytes`.
Does not own: which bytes are well-formed (`Proofs.Text.Encoding`).
-/

namespace LoxInterpreter.Source

/-- Bytes are scanned as text is. The encoding of a text is scanned to what the text is scanned to. Bytes
that are not well-formed have no tokens, and the mistake is on the line behind the line feeds of their
longest well-formed part. -/
theorem scan_bytes :
    (∀ text : String, (Source.bytes text.toUTF8).scan = (Source.text text).scan) ∧
    ∀ bytes : ByteArray, ¬ Text.WellFormed bytes.toList →
      ∃ stop error, Text.IsLongestWellFormed stop bytes.toList ∧
        (Source.bytes bytes).scan = ⟨[], some error⟩ ∧
        error.message = "Invalid UTF-8 in source." ∧
        error.line = 1 + (bytes.toList.take stop).count 10 := by
  constructor
  · intro text
    unfold Source.scan
    dsimp only
    rw [Text.decode_toUTF8]
  · intro bytes notWellFormed
    refine ⟨Text.validLength bytes, ⟨.invalidEncoding, _⟩, Text.validLength_isLongestWellFormed bytes, ?_, rfl, rfl⟩
    unfold Source.scan
    dsimp only
    rw [Text.decode_eq_error notWellFormed]

/-- A line feed, and the first byte of a sequence that the next line feed breaks off. -/
def brokenSequence : ByteArray := ⟨#[0x0A, 0xE2, 0x0A]⟩

/-- A line feed inside a sequence is not counted. -/
theorem scan_bytes_brokenSequence :
    ¬ Text.WellFormed brokenSequence.toList ∧
    ∃ error, (Source.bytes brokenSequence).scan = ⟨[], some error⟩ ∧
      error.message = "Invalid UTF-8 in source." ∧ error.line = 2 := by
  have isList : brokenSequence.toList = String.utf8EncodeChar '\n' ++ [0xE2, 0x0A] := Text.toList_eq _
  have noCharacter : Text.firstCharacter? [0xE2, 0x0A] = none := by decide
  have isLongest : Text.IsLongestWellFormed 1 brokenSequence.toList :=
    isList ▸ (Text.isLongestWellFormed_zero noCharacter).append '\n'
  have notWellFormed : ¬ Text.WellFormed brokenSequence.toList := by
    intro wellFormed
    have isWhole := isLongest.longest 3 (by rw [isList]; decide) (by rwa [isList] at wellFormed ⊢)
    exact absurd isWhole (by decide)
  obtain ⟨stop, error, isStop, scans, message, line⟩ := scan_bytes.2 brokenSequence notWellFormed
  refine ⟨notWellFormed, error, scans, message, ?_⟩
  rw [line, isStop.unique isLongest, isList]
  decide

end LoxInterpreter.Source
