/-!
Contract: blanks around a text.

Blank are the 25 characters of Unicode 14 with the property White_Space, and the four separators
U+001C to U+001F.

Owns: the table of blanks, and the text between the outermost of its other characters.
-/

namespace LoxInterpreter.Text

/-- Closed ranges of the code points of blanks, ascending and apart. -/
def blankRanges : List (Nat × Nat) :=
  [(0x09, 0x0D), (0x1C, 0x20), (0x85, 0x85), (0xA0, 0xA0), (0x1680, 0x1680), (0x2000, 0x200A),
    (0x2028, 0x2029), (0x202F, 0x202F), (0x205F, 0x205F), (0x3000, 0x3000)]

def isBlank (character : Char) : Bool :=
  blankRanges.any fun range => range.1 ≤ character.toNat && character.toNat ≤ range.2

/-- A text without the blanks at its two ends. -/
def strip (text : List Char) : List Char :=
  ((text.dropWhile isBlank).reverse.dropWhile isBlank).reverse

end LoxInterpreter.Text
