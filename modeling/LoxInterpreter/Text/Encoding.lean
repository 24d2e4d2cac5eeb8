/-!
Contract: bytes as text.

Text is encoded strictly: overlong forms, surrogates, code points out of range and truncated
sequences are no characters.

Owns: the length of the well-formed start of a byte sequence, and the line on which it stops.
-/

namespace LoxInterpreter.Text

/-- The position behind the characters that follow one another from `start` on. -/
def validEnd (bytes : ByteArray) (start : Nat) : Nat :=
  match bytes.utf8DecodeChar? start with
  | none => start
  | some character =>
      if start < bytes.size then validEnd bytes (start + character.utf8Size) else start
termination_by bytes.size - start
decreasing_by
  have positive := character.utf8Size_pos
  omega

/-- How many bytes of a sequence make up whole characters before the first bad byte. -/
def validLength (bytes : ByteArray) : Nat := validEnd bytes 0

def lineFeedsBefore (bytes : ByteArray) (stop : Nat) : Nat :=
  (bytes.extract 0 stop).toList.count 10

/-- The text that bytes encode, or the line of the first byte that is part of no character. -/
def decode (bytes : ByteArray) : Except Nat String :=
  match String.fromUTF8? bytes with
  | some text => .ok text
  | none => .error (1 + lineFeedsBefore bytes (validLength bytes))

end LoxInterpreter.Text
