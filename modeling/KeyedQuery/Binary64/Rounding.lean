import KeyedQuery.Binary64.Basic
import KeyedQuery.Decimal.Numeral

/-!
# Rounding to binary64

The binary64 number nearest to a ratio of natural numbers, a tie going to the
even significand.  Integers and decimal numerals are ratios, so they are rounded
once, from their exact value.
-/

namespace KeyedQuery

/-- A quotient rounded to the nearest natural number, a half to the even neighbour. -/
def divRoundEven (num den : Nat) : Nat :=
  let quotient := num / den
  let twice := 2 * (num % den)
  if twice < den then quotient
  else if den < twice then quotient + 1
  else quotient + quotient % 2

namespace Binary64

/-- Whether `den × 2 ^ power ≤ num`. -/
def reaches (num den : Nat) (power : Int) : Bool :=
  if 0 ≤ power then den * 2 ^ power.toNat ≤ num else den ≤ num * 2 ^ (-power).toNat

/-- The greatest power of two that does not exceed a positive ratio. -/
def leadingPower (num den : Nat) : Int :=
  let estimate : Int := (Nat.log2 num : Int) - (Nat.log2 den : Int)
  if reaches num den estimate then estimate else estimate - 1

/--
The magnitude nearest to a positive ratio.  The grid is the one of the ratio's
leading power, but never finer than the subnormal grid; a carry out of the
significand moves into the exponent field by itself.
-/
def magnitudeOfRatio (num den : Nat) : Nat :=
  let grid : Int := max (leadingPower num den - 52) (-1074)
  let significand :=
    if 0 ≤ grid then
      divRoundEven num (den * 2 ^ grid.toNat)
    else
      divRoundEven (num * 2 ^ (-grid).toNat) den
  min (significand + (grid + 1074).toNat * 2 ^ 52) infinityMagnitude

/-- The number nearest to `± num / den`, for a positive denominator. -/
def ofRatio (negative : Bool) (num den : Nat) : Binary64 :=
  ofMagnitude negative (if num = 0 then 0 else magnitudeOfRatio num den)

def ofInt (i : Int) : Binary64 :=
  ofRatio (i < 0) i.natAbs 1

/--
The number nearest to a decimal numeral.  A numeral whose leading digit lies far
outside the range of the format is infinite or zero without any arithmetic on
its power of ten.
-/
def ofNumeral (n : Decimal.Numeral) : Binary64 :=
  let leading : Int := n.exponent + (Decimal.digits n.coefficient).length
  if n.coefficient = 0 ∨ leading < -330 then ofMagnitude n.negative 0
  else if 310 < leading then infinity n.negative
  else if 0 ≤ n.exponent then ofRatio n.negative (n.coefficient * 10 ^ n.exponent.toNat) 1
  else ofRatio n.negative n.coefficient (10 ^ (-n.exponent).toNat)

/-- The finite number that a decimal text rounds to. -/
def readFinite (text : List Char) : Option Binary64 :=
  match Decimal.Numeral.read text with
  | none => none
  | some numeral =>
      let x := ofNumeral numeral
      if x.isFinite then some x else none

end Binary64

end KeyedQuery
