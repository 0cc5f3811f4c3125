import KeyedQuery.Binary64.Shortest

/-!
# Decimal text of binary64 numbers

The digits come from `Binary64.shortest`; how they are laid out is one record per
format.  Three formats are in use: JSON text, attribute text and message text.
-/

namespace KeyedQuery

namespace Binary64

/-- How the digits of a number are written. -/
structure Layout where
  /-- Which of two equally near decimals is written. -/
  tie : Tie
  /-- The exponents of the leading digit that are written without a power of ten. -/
  positional : Int → Bool
  /-- Whether a whole number written positionally ends in `.0`. -/
  pointZero : Bool
  /-- Whether a positive power of ten carries its sign. -/
  plusSign : Bool

/-- JSON text: positional from `0.00001` up to sixteen digits, `1.0`, `1e+16`. -/
def Layout.json : Layout :=
  ⟨.even, fun leading => -5 ≤ leading && leading < 16, true, true⟩

/-- Attribute text: always positional, and a whole number has no point. -/
def Layout.plain : Layout :=
  ⟨.up, fun _ => true, false, false⟩

/-- Message text: positional from `0.0001` up to sixteen digits, `1.0`, `1e16`. -/
def Layout.message : Layout :=
  ⟨.up, fun leading => -4 ≤ leading && leading < 16, true, false⟩

/-- Digits with a point after `place` of them, filled up with zeros on either side. -/
def Layout.positionalDigits (l : Layout) (digits : List Char) (place : Int) : List Char :=
  if place ≤ 0 then
    '0' :: '.' :: (List.replicate (-place).toNat '0' ++ digits)
  else if digits.length ≤ place.toNat then
    digits ++ List.replicate (place.toNat - digits.length) '0' ++
      (if l.pointZero then ['.', '0'] else [])
  else
    digits.take place.toNat ++ '.' :: digits.drop place.toNat

/-- One digit, the others behind a point, and the power of ten of the first. -/
def Layout.scientificDigits (l : Layout) (digits : List Char) (leading : Int) : List Char :=
  let mantissa :=
    match digits with
    | first :: second :: rest => first :: '.' :: second :: rest
    | short => short
  mantissa ++ 'e' :: ((if l.plusSign && 0 ≤ leading then ['+'] else []) ++
    Decimal.intDigits leading)

/-- The text of the absolute value of a finite number. -/
def Layout.magnitudeDigits (l : Layout) (x : Binary64) : List Char :=
  if x.magnitude = 0 then
    if l.pointZero then ['0', '.', '0'] else ['0']
  else
    let s := shortest l.tie x
    let digits := Decimal.digits s.coefficient
    let leading : Int := s.exponent + digits.length - 1
    if l.positional leading then
      l.positionalDigits digits (leading + 1)
    else
      l.scientificDigits digits leading

/-- The text of a finite number; every negative number has its sign, zero included. -/
def Layout.write (l : Layout) (x : Binary64) : List Char :=
  if x.negative then '-' :: l.magnitudeDigits x else l.magnitudeDigits x

/-- The text of any number as a message shows it. -/
def messageText (x : Binary64) : String :=
  if x.isNaN then "NaN"
  else if x.isFinite then String.ofList (Layout.message.write x)
  else if x.negative then "-inf"
  else "inf"

end Binary64

end KeyedQuery
