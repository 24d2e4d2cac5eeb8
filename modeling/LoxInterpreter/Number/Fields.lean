/-!
Contract: the three bit fields of a double and the exact value they stand for.

Owns: `Fields`, read off the 64 bits of a double; `Magnitude`, the value without its sign as
`significand * 2 ^ exponent`.
Does not own: rounding to a double, or the choice of decimal digits.
-/

namespace LoxInterpreter.Number

def fractionBits : Nat := 52

/-- The exponent field of the infinities and of NaN. -/
def topExponent : Nat := 2047

/-- The exponent of the last place of the smallest doubles. -/
def leastExponent : Int := -1074

/-- The sign, exponent and fraction fields of a double, as they stand in its bits. -/
structure Fields where
  fraction : Nat
  exponent : Nat
  sign : Nat
deriving DecidableEq, Repr

def Fields.ofBits (bits : Nat) : Fields where
  fraction := bits % Nat.pow 2 fractionBits
  exponent := bits / Nat.pow 2 fractionBits % 2048
  sign := bits / Nat.pow 2 63

/-- The fields of a double. Two doubles have the same fields exactly when their bits agree. -/
def Fields.ofFloat (value : Float) : Fields := .ofBits value.toBits.toNat

/-- A finite value without its sign: `significand * 2 ^ exponent`. -/
structure Magnitude where
  significand : Nat
  exponent : Int
deriving DecidableEq, Repr

def Magnitude.ofBits (bits : Nat) : Magnitude :=
  let fields := Fields.ofBits bits
  if fields.exponent = 0 then ⟨fields.fraction, leastExponent⟩
  else ⟨Nat.pow 2 fractionBits + fields.fraction, leastExponent + (fields.exponent - 1 : Nat)⟩

def Magnitude.numerator (magnitude : Magnitude) : Nat :=
  magnitude.significand * Nat.pow 2 magnitude.exponent.toNat

/-- The denominator that goes with `numerator`, a power of two. -/
def Magnitude.denominator (magnitude : Magnitude) : Nat :=
  Nat.pow 2 (-magnitude.exponent).toNat

end LoxInterpreter.Number
