import KeyedQuery.Binary64.Basic
import KeyedQuery.Decimal.Whole

/-!
# The fewest digits that read back

The reals that round to a finite binary64 number form an interval around it.  A
decimal of that interval with the fewest digits, and among those the nearest one,
names the number.  The search runs from coarse to fine powers of ten and looks
at the number's two neighbours on each grid, in exact integer arithmetic.
-/

namespace KeyedQuery

namespace Binary64

/-- Which of two equally near decimals is taken. -/
inductive Tie where
  | up
  | even
deriving DecidableEq, Repr

/-- The positive decimal `coefficient × 10 ^ exponent`. -/
structure Shortest where
  coefficient : Nat
  exponent : Int
deriving DecidableEq, Repr

/--
The interval of a positive finite number, in quarters of its unit
`2 ^ exponent`: half a unit up, and half a unit down, but a quarter down where the
unit below is half as large.  The ends belong to it when the significand is even.
-/
structure RoundingInterval where
  low : Nat
  value : Nat
  high : Nat
  closed : Bool
  quarter : Int

/-- The interval of reals that round to the absolute value of a finite number. -/
def roundingInterval (x : Binary64) : RoundingInterval :=
  let m := x.significand
  let narrow := m = 2 ^ 52 ∧ 1 < x.exponentField
  { low := 4 * m - (if narrow then 1 else 2)
    value := 4 * m
    high := 4 * m + 2
    closed := m % 2 == 0
    quarter := x.exponent - 2 }

/-- A point on a grid of decimals, on the scale where the interval ends are integers. -/
def RoundingInterval.holds (i : RoundingInterval) (scale point : Nat) : Bool :=
  if i.closed then
    i.low * scale ≤ point && point ≤ i.high * scale
  else
    i.low * scale < point && point < i.high * scale

/--
The nearest multiple of `10 ^ power` inside the interval, as its coefficient.
Both scales are chosen so that `point × step` and `quarters × scale` are
comparable natural numbers.
-/
def RoundingInterval.onGrid? (i : RoundingInterval) (tie : Tie) (power : Int) : Option Nat :=
  let step := 10 ^ power.toNat * 2 ^ (-i.quarter).toNat
  let scale := 10 ^ (-power).toNat * 2 ^ i.quarter.toNat
  let below := i.value * scale / step
  let hitBelow := i.holds scale (below * step)
  let hitAbove := i.holds scale ((below + 1) * step)
  if hitBelow && hitAbove then
    let twice := 2 * (i.value * scale % step)
    if twice < step then some below
    else if step < twice then some (below + 1)
    else
      match tie with
      | .up => some (below + 1)
      | .even => some (if below % 2 = 0 then below else below + 1)
  else if hitBelow then some below
  else if hitAbove then some (below + 1)
  else none

/-- The first grid with a hit, from `power` on downward for `fuel` grids. -/
def RoundingInterval.search (i : RoundingInterval) (tie : Tie) : Nat → Int → Shortest
  | 0, power => ⟨i.value * 10 ^ (-power).toNat * 2 ^ i.quarter.toNat /
      (10 ^ power.toNat * 2 ^ (-i.quarter).toNat), power⟩
  | fuel + 1, power =>
      match i.onGrid? tie power with
      | some coefficient => ⟨coefficient, power⟩
      | none => i.search tie fuel (power - 1)

/--
The shortest decimal of the absolute value of a finite number other than zero.
The search starts above the leading digit; seventeen digits always suffice.
-/
def shortest (tie : Tie) (x : Binary64) : Shortest :=
  let leadingBit : Int := (Nat.log2 x.significand : Int) + x.exponent
  (roundingInterval x).search tie 22 (leadingBit * 30103 / 100000 + 2)

end Binary64

end KeyedQuery
