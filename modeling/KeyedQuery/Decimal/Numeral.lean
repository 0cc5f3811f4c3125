import KeyedQuery.Decimal.Whole

/-!
# Decimal numerals with a point and an exponent

A numeral is a sign, a natural coefficient and a power of ten.  It stands for an
exact decimal number; rounding it to binary is no concern of this module.
-/

namespace KeyedQuery

namespace Decimal

/-- The number `± coefficient × 10 ^ exponent`; the sign of zero is kept. -/
structure Numeral where
  negative : Bool
  coefficient : Nat
  exponent : Int
deriving DecidableEq, Repr

namespace Numeral

/-- The numeral of the digits before a point, the digits after it, and a power of ten. -/
def ofParts (negative : Bool) (whole fraction : List Char) (power : Int) : Numeral :=
  ⟨negative, ofDigits (whole ++ fraction), power - fraction.length⟩

/-- The power of ten that follows the digits: nothing, or `e` with a signed number. -/
def readPower : List Char → Option Int
  | [] => some 0
  | mark :: rest => if mark = 'e' ∨ mark = 'E' then readInt rest else none

/--
A numeral with an optional sign, digits with an optional point, and an optional
power of ten.  At least one digit must stand before or after the point.
-/
def read (text : List Char) : Option Numeral :=
  let (negative, rest) := splitSign text
  let whole := rest.takeWhile Char.isDigit
  let afterWhole := rest.dropWhile Char.isDigit
  let (fraction, afterFraction) :=
    match afterWhole with
    | '.' :: more => (more.takeWhile Char.isDigit, more.dropWhile Char.isDigit)
    | more => ([], more)
  if whole.isEmpty && fraction.isEmpty then
    none
  else
    (readPower afterFraction).map (ofParts negative whole fraction)

end Numeral

end Decimal

end KeyedQuery
