import Netlist.Text.Blank
import Netlist.Token

/-!
# Numerals

A numeral is a decimal with an optional engineering suffix.  The suffix starts
at the first letter that does not mark an exponent, letters behind the suffix
are units and mean nothing, and the value is the decimal, rounded to a double,
times the double of the suffix.
-/

namespace Netlist

/-- The number `(-1)^negative * digits * 10^exponent`. -/
structure Decimal where
  negative : Bool
  digits : Nat
  exponent : Int
deriving DecidableEq, Repr

namespace Decimal

/-- The value of a run of decimal digits; anything else has none. -/
def digits? (text : Text) : Option Nat :=
  if !text.isEmpty && text.all Char.isDigit then
    some (text.foldl (fun value c => 10 * value + (c.toNat - '0'.toNat)) 0)
  else none

/-- An optional sign, and whether it is a minus. -/
def sign : Text → Bool × Text
  | '-' :: rest => (true, rest)
  | '+' :: rest => (false, rest)
  | text => (false, text)

/-- An exponent part: empty, or a mark with a signed whole number behind it. -/
def power? : Text → Option Int
  | [] => some 0
  | mark :: rest =>
      if mark == 'e' || mark == 'E' then
        let (negative, digits) := sign rest
        (digits? digits).map fun value => if negative then -(value : Int) else value
      else none

/-- Digits with at most one point among them and at least one digit, and an exponent. -/
def read? (text : Text) : Option Decimal :=
  let (negative, body) := sign text
  let whole := body.takeWhile Char.isDigit
  let behind := body.dropWhile Char.isDigit
  let (fraction, tail) :=
    match behind with
    | '.' :: rest => (rest.takeWhile Char.isDigit, rest.dropWhile Char.isDigit)
    | _ => ([], behind)
  match digits? (whole ++ fraction), power? tail with
  | some digits, some power => some ⟨negative, digits, power - fraction.length⟩
  | _, _ => none

/-- The whole number nearest to a quotient; of two the even one. -/
def roundEven (numerator denominator : Nat) : Nat :=
  let quotient := numerator / denominator
  let twice := 2 * (numerator % denominator)
  if twice < denominator || (twice = denominator && quotient % 2 = 0) then quotient
  else quotient + 1

/-- The quotient with both sides scaled, so that it counts units of `2^unit`. -/
def inUnits (numerator denominator : Nat) (unit : Int) : Nat × Nat :=
  if 0 ≤ unit then (numerator, denominator * Nat.pow 2 unit.toNat)
  else (numerator * Nat.pow 2 (-unit).toNat, denominator)

/-- The power of two at or below a positive quotient. -/
def binaryExponent (numerator denominator : Nat) : Int :=
  let guess : Int := (numerator.log2 : Int) - denominator.log2
  let (scaled, whole) := inUnits numerator denominator guess
  if whole ≤ scaled then guess else guess - 1

/-- The bits of positive infinity in a double. -/
def infinityBits : Nat := 0x7FF0000000000000

/-- The bits of the double nearest to a positive quotient. -/
def quotientBits (numerator denominator : Nat) : Nat :=
  let unit := max (binaryExponent numerator denominator - 52) (-1074)
  let (scaled, whole) := inUnits numerator denominator unit
  min infinityBits ((unit + 1074).toNat * Nat.pow 2 52 + roundEven scaled whole)

/-- Beyond this many places from the point every double is zero or infinite. -/
def farthest : Int := 400

/-- The bits of the double nearest to the size of a decimal. -/
def sizeBits (decimal : Decimal) : Nat :=
  let places : Int := (Nat.toDigits 10 decimal.digits).length + decimal.exponent
  if decimal.digits = 0 || places < -farthest then 0
  else if farthest < places then infinityBits
  else if 0 ≤ decimal.exponent then quotientBits (decimal.digits * Nat.pow 10 decimal.exponent.toNat) 1
  else quotientBits decimal.digits (Nat.pow 10 (-decimal.exponent).toNat)

/-- The nearest double. -/
def toFloat (decimal : Decimal) : Float :=
  Float.ofBits (decimal.sizeBits + if decimal.negative then Nat.pow 2 63 else 0).toUInt64

end Decimal

namespace Numeral

/-- Signs may stand between an exponent mark and its digits here; the decimal decides. -/
def marksExponent (c : Char) (rest : Text) : Bool :=
  (c == 'e' || c == 'E') &&
    Token.opensWithDigit (rest.dropWhile fun s => s == '+' || s == '-')

/-- The decimal and the suffix of a numeral. -/
def splitSuffix : Text → Text × Text
  | [] => ([], [])
  | first :: rest =>
      if first.isAlpha && !marksExponent first rest then ([], first :: rest)
      else (first :: (splitSuffix rest).1, (splitSuffix rest).2)

/-- The power of ten that a suffix letter stands for. -/
def letterPower : Char → Int
  | 't' => 12
  | 'g' => 9
  | 'k' => 3
  | 'm' => -3
  | 'u' => -6
  | 'n' => -9
  | 'p' => -12
  | 'f' => -15
  | _ => 0

/-- The factor of a suffix in lower case; a mil is 25.4 millionths. -/
def scale (suffix : Text) : Decimal :=
  if "meg".toList.isPrefixOf suffix then ⟨false, 1, 6⟩
  else if "mil".toList.isPrefixOf suffix then ⟨false, 254, -7⟩
  else
    match suffix with
    | [] => ⟨false, 1, 0⟩
    | first :: _ => ⟨false, 1, letterPower first⟩

/-- The value of a numeral, if the text is one. -/
def value? (text : Text) : Option Float :=
  let (mantissa, suffix) := splitSuffix (Text.trim text)
  (Decimal.read? mantissa).map fun decimal => decimal.toFloat * (scale (Text.lower suffix)).toFloat

/-- A whole number below `2^64`, with an optional plus sign. -/
def count? (text : Text) : Option Nat :=
  let digits := match text with
    | '+' :: rest => rest
    | _ => text
  (Decimal.digits? digits).filter fun value => value < Nat.pow 2 64

end Numeral

end Netlist
