/-!
Contract: numbers in base sixteen.

Owns: the digit of a value below sixteen, in lower case, and the last digits of any value.
-/

namespace LoxInterpreter.Text

def hexDigit (value : Nat) : Char :=
  Char.ofNat (if value < 10 then '0'.toNat + value else 'a'.toNat + (value - 10))

/-- The last hexadecimal digits of a value, as many as asked for, with leading zeros. -/
def hexDigits (value : Nat) : Nat → List Char
  | 0 => []
  | count + 1 => hexDigits (value / 16) count ++ [hexDigit (value % 16)]

end LoxInterpreter.Text
