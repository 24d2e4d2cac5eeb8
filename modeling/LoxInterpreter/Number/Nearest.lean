import LoxInterpreter.Number.Fields

/-!
Contract: the double nearest to an exact decimal, a tie going to the even neighbour.

Owns: `roundQuotient`, `nearestBits` on exact quotients, `Decimal` and its double.
Does not own: which decimal stands for a double (`Number.Shortest`).
-/

namespace LoxInterpreter.Number

/-- The quotient rounded to a natural number, a tie going to the even one. -/
def roundQuotient (numerator denominator : Nat) : Nat :=
  let quotient := numerator / denominator
  let remainder := numerator % denominator
  if 2 * remainder < denominator then quotient
  else if denominator < 2 * remainder then quotient + 1
  else quotient + quotient % 2

/-- The greatest `e` with `2 ^ e ≤ numerator / denominator`, both being positive. The difference of
the two logarithms is that number or one above it. -/
def floorLog2 (numerator denominator : Nat) : Int :=
  let estimate : Int := (numerator.log2 : Int) - (denominator.log2 : Int)
  if denominator * Nat.pow 2 estimate.toNat ≤ numerator * Nat.pow 2 (-estimate).toNat then estimate
  else estimate - 1

/-- The bits of positive infinity, one above those of the greatest finite double. -/
def infinityBits : Nat := topExponent * Nat.pow 2 fractionBits

/-- The bits of the double nearest to `numerator / denominator`.

The last place of the result is `2 ^ place`, so that the significand has 53 bits, or fewer next to
zero. Adding the significand to the exponent part lets a carry out of the fraction step the
exponent, which is what rounding up to a power of two means. -/
def nearestBits (numerator denominator : Nat) : Nat :=
  if numerator = 0 then 0
  else
    let place := max leastExponent (floorLog2 numerator denominator - fractionBits)
    let significand :=
      roundQuotient (numerator * Nat.pow 2 (-place).toNat) (denominator * Nat.pow 2 place.toNat)
    min infinityBits ((place - leastExponent).toNat * Nat.pow 2 fractionBits + significand)

structure Decimal where
  digits : Nat
  exponent : Int
deriving DecidableEq, Repr

def Decimal.nearestBits (decimal : Decimal) : Nat :=
  Number.nearestBits (decimal.digits * Nat.pow 10 decimal.exponent.toNat)
    (Nat.pow 10 (-decimal.exponent).toNat)

/-- The double nearest to a decimal; too great a decimal gives infinity. -/
def Decimal.toFloat (decimal : Decimal) : Float :=
  Float.ofBits (UInt64.ofNat decimal.nearestBits)

end LoxInterpreter.Number
