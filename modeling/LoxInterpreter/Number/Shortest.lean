import LoxInterpreter.Number.Nearest

/-!
Contract: the decimal that stands for a double: the fewest digits that read back to it, and of those
the nearest.

Owns: the search for that decimal. A decimal is accepted only when its nearest double is the given
one, so what is returned reads back by construction.
Does not own: the layout of digits as text (`Number.Style`).
-/

namespace LoxInterpreter.Number

/-- Trailing zeros moved from the digits into the exponent. -/
def Decimal.normalize (decimal : Decimal) : Decimal :=
  if zeros : 0 < decimal.digits ∧ decimal.digits % 10 = 0 then
    normalize ⟨decimal.digits / 10, decimal.exponent + 1⟩
  else decimal
termination_by decimal.digits
decreasing_by exact Nat.div_lt_self zeros.1 (by decide)

def Magnitude.belowPowerOfTen (magnitude : Magnitude) (power : Int) : Bool :=
  magnitude.numerator * Nat.pow 10 (-power).toNat < magnitude.denominator * Nat.pow 10 power.toNat

/-- The least power of ten above a positive magnitude. The binary logarithm times `log₁₀ 2` is at
most two below it. -/
def Magnitude.decimalScale (magnitude : Magnitude) : Int :=
  let estimate := (floorLog2 magnitude.numerator magnitude.denominator * 30103).fdiv 100000
  if magnitude.belowPowerOfTen estimate then estimate
  else if magnitude.belowPowerOfTen (estimate + 1) then estimate + 1
  else estimate + 2

def Magnitude.exactDecimal (magnitude : Magnitude) : Decimal :=
  if 0 ≤ magnitude.exponent then ⟨magnitude.numerator, 0⟩
  else ⟨magnitude.significand * Nat.pow 5 (-magnitude.exponent).toNat, magnitude.exponent⟩

/-- The decimal on the grid `10 ^ place` that reads back to the given bits. Only the two neighbours
of the value can; when both do, the nearer is taken, and of two equally near the even one. -/
def Magnitude.onGrid? (magnitude : Magnitude) (bits : Nat) (place : Int) : Option Decimal :=
  let numerator := magnitude.numerator * Nat.pow 10 (-place).toNat
  let denominator := magnitude.denominator * Nat.pow 10 place.toNat
  let below : Decimal := ⟨numerator / denominator, place⟩
  let above : Decimal := ⟨numerator / denominator + 1, place⟩
  match below.nearestBits == bits, above.nearestBits == bits with
  | true, true => some ⟨roundQuotient numerator denominator, place⟩
  | true, false => some below
  | false, true => some above
  | false, false => none

/-- Tries ever finer grids, from the one that leaves `tried + 1` digits on, and takes the first
decimal that reads back. -/
def Magnitude.search (magnitude : Magnitude) (bits : Nat) (scale : Int) (tried : Nat) :
    (remaining : Nat) → Option Decimal
  | 0 => none
  | remaining + 1 =>
      match magnitude.onGrid? bits (scale - (tried + 1 : Nat)) with
      | some decimal => some decimal
      | none => magnitude.search bits scale (tried + 1) remaining

def sufficientDigits : Nat := 17

/-- The decimal that stands for a finite positive bit pattern. The search finds it within
`sufficientDigits`; the exact value closes the case that it does not. -/
def shortestDecimal (bits : Nat) : Decimal :=
  if bits = 0 then ⟨0, 0⟩
  else
    let magnitude := Magnitude.ofBits bits
    let found := magnitude.search bits magnitude.decimalScale 0 sufficientDigits
    (found.getD magnitude.exactDecimal).normalize

end LoxInterpreter.Number
