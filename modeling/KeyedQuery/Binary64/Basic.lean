import KeyedQuery.Power

/-!
# Binary64 numbers

Floating-point numbers of 64 bits, held as their bits.  Every operation is exact
integer arithmetic on the fields of the word: a finite number is
`± significand × 2 ^ exponent`, and comparison is comparison of ranks, the
integers that number the finite values and infinities from the least to the
greatest.
-/

namespace KeyedQuery

/-- A 64-bit floating-point number: a sign bit, 11 exponent bits, 52 fraction bits. -/
structure Binary64 where
  bits : UInt64
deriving DecidableEq, Repr, Inhabited

namespace Binary64

/-- The magnitude of infinity: all exponent bits set, no fraction. -/
def infinityMagnitude : Nat :=
  0x7FF * 2 ^ 52

def negative (x : Binary64) : Bool :=
  2 ^ 63 ≤ x.bits.toNat

/-- The bits below the sign bit, as a number. -/
def magnitude (x : Binary64) : Nat :=
  x.bits.toNat % 2 ^ 63

/-- The number of a sign and a magnitude below `2 ^ 63`. -/
def ofMagnitude (negative : Bool) (magnitude : Nat) : Binary64 :=
  ⟨UInt64.ofNat (magnitude + if negative then 2 ^ 63 else 0)⟩

/-- Not a number: past infinity. -/
def isNaN (x : Binary64) : Bool :=
  infinityMagnitude < x.magnitude

/-- Neither infinite nor not a number. -/
def isFinite (x : Binary64) : Bool :=
  x.magnitude < infinityMagnitude

def infinity (negative : Bool) : Binary64 :=
  ofMagnitude negative infinityMagnitude

def exponentField (x : Binary64) : Nat :=
  x.magnitude / 2 ^ 52

/-- The integer whose scaling by `2 ^ exponent` is the absolute value. -/
def significand (x : Binary64) : Nat :=
  let fraction := x.magnitude % 2 ^ 52
  if x.exponentField = 0 then fraction else fraction + 2 ^ 52

/-- The power of two that scales the significand. -/
def exponent (x : Binary64) : Int :=
  (max x.exponentField 1 : Nat) - 1075

/-- The place of a number in the order of all numbers; both zeros have rank zero. -/
def rank (x : Binary64) : Int :=
  if x.negative then -(x.magnitude : Int) else x.magnitude

/-- The order of two numbers; nothing compares with what is not a number. -/
def compare? (x y : Binary64) : Option Ordering :=
  if x.isNaN || y.isNaN then none else some (compare x.rank y.rank)

/-- Equality of numbers: the two zeros are equal, and NaN differs from itself. -/
def sameNumber (x y : Binary64) : Bool :=
  x.compare? y == some .eq

/-- The absolute value without its fractional part. -/
def floorMagnitude (x : Binary64) : Nat :=
  if 0 ≤ x.exponent then
    x.significand * 2 ^ x.exponent.toNat
  else
    x.significand / 2 ^ (-x.exponent).toNat

/-- Rounding toward zero, of a finite number. -/
def truncate (x : Binary64) : Int :=
  if x.negative then -(x.floorMagnitude : Int) else x.floorMagnitude

def isWhole (x : Binary64) : Bool :=
  0 ≤ x.exponent || x.significand % 2 ^ (-x.exponent).toNat == 0

/-- The 64-bit integer nearest to the truncation of a finite number. -/
def clampToInt64 (x : Binary64) : Int64 :=
  Int64.ofInt (max (-2 ^ 63) (min x.truncate (2 ^ 63 - 1)))

theorem compare?_self {x : Binary64} (h : x.isNaN = false) : x.compare? x = some .eq := by
  simp [compare?, h]

theorem isNaN_of_isFinite {x : Binary64} (h : x.isFinite = true) : x.isNaN = false := by
  simp only [isFinite, isNaN, decide_eq_true_eq, decide_eq_false_iff_not] at *
  omega

end Binary64

end KeyedQuery
