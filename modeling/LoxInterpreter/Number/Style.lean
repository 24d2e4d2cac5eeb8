import LoxInterpreter.Number.Shortest

/-!
Contract: numbers as text.

A finite number is written with its shortest decimal: positionally when its leading digit stands for
`10 ^ -4` to `10 ^ 15`, otherwise with a signed exponent of at least two digits. What differs between
the three places that write numbers is one `Style` each.

Owns: `Style`, its layout, and the styles of program output, of quoted literals and of JSON.
Does not own: the choice of digits (`Number.Shortest`).
-/

namespace LoxInterpreter.Number

structure Style where
  /-- What follows a whole number that is written positionally. -/
  wholeSuffix : String
  infinity : String
  notANumber : String

/-- How a running program prints a number: whole numbers have no point. -/
def Style.plain : Style where
  wholeSuffix := ""
  infinity := "inf"
  notANumber := "nan"

/-- How a quoted literal shows a number: whole numbers keep their point. -/
def Style.quoted : Style where
  wholeSuffix := ".0"
  infinity := "inf"
  notANumber := "nan"

def Style.json : Style where
  wholeSuffix := ".0"
  infinity := "Infinity"
  notANumber := "NaN"

def decimalDigits (value : Nat) : List Char := Nat.toDigits 10 value

/-- The exponent part, with its sign and at least two digits. -/
def exponentText (exponent : Int) : List Char :=
  let digits := decimalDigits exponent.natAbs
  'e' :: (if exponent < 0 then '-' else '+') ::
    (List.replicate (2 - digits.length) '0' ++ digits)

/-- Digits with the point after the first `point` of them, zeros filling the gap on either side. -/
def Style.positional (style : Style) (digits : List Char) (point : Int) : List Char :=
  if point ≤ 0 then '0' :: '.' :: (List.replicate (-point).toNat '0' ++ digits)
  else
    let whole := point.toNat
    if digits.length ≤ whole then
      digits ++ List.replicate (whole - digits.length) '0' ++ style.wholeSuffix.toList
    else digits.take whole ++ '.' :: digits.drop whole

def scientific (digits : List Char) (exponent : Int) : List Char :=
  digits.take 1 ++
    (if digits.length ≤ 1 then [] else '.' :: digits.drop 1) ++ exponentText exponent

/-- The exponents of the leading digit that are written positionally. -/
def isPositional (exponent : Int) : Bool := -4 ≤ exponent && exponent < 16

def Style.decimal (style : Style) (decimal : Decimal) : List Char :=
  let digits := decimalDigits decimal.digits
  let point : Int := digits.length + decimal.exponent
  if isPositional (point - 1) then style.positional digits point
  else scientific digits (point - 1)

/-- A double as text. Negative zero keeps its sign, and NaN has none. -/
def Style.characters (style : Style) (value : Float) : List Char :=
  let fields := Fields.ofFloat value
  let sign := if fields.sign = 0 then [] else ['-']
  if fields.exponent = topExponent then
    if fields.fraction = 0 then sign ++ style.infinity.toList else style.notANumber.toList
  else sign ++ style.decimal (shortestDecimal (value.toBits.toNat % Nat.pow 2 63))

def Style.render (style : Style) (value : Float) : String :=
  String.ofList (style.characters value)

def text (value : Float) : String := Style.plain.render value

end LoxInterpreter.Number
