import KeyedQuery.Power

/-!
# Whole numbers in decimal

Decimal digits of natural numbers and integers, and the reader of 64-bit signed
integers.  Digits are the ten ASCII digits.
-/

namespace KeyedQuery

namespace Decimal

/-- The number that one ASCII digit stands for. -/
def digitValue (c : Char) : Nat :=
  c.toNat - '0'.toNat

/-- The number that a run of digits stands for, most significant digit first. -/
def ofDigits (digits : List Char) : Nat :=
  digits.foldl (fun n c => 10 * n + digitValue c) 0

/-- The decimal digits of a number, without leading zeros. -/
def digits (n : Nat) : List Char :=
  Nat.toDigits 10 n

/-- The decimal digits of a number, with leading zeros up to a width. -/
def padded (width n : Nat) : List Char :=
  List.replicate (width - (digits n).length) '0' ++ digits n

/-- The decimal text of an integer; only a negative number has a sign. -/
def intDigits (i : Int) : List Char :=
  if i < 0 then '-' :: digits i.natAbs else digits i.natAbs

def intText (i : Int) : String :=
  String.ofList (intDigits i)

/-- Whether a leading sign makes a numeral negative, and what follows that sign. -/
def splitSign : List Char → Bool × List Char
  | '-' :: rest => (true, rest)
  | '+' :: rest => (false, rest)
  | text => (false, text)

/-- A non-empty run of digits that is the whole text. -/
def readDigits (text : List Char) : Option Nat :=
  if !text.isEmpty && text.all Char.isDigit then some (ofDigits text) else none

/-- An optional sign and digits, as an integer of any size. -/
def readInt (text : List Char) : Option Int :=
  let (negative, rest) := splitSign text
  (readDigits rest).map fun n => if negative then -(n : Int) else (n : Int)

/-- The 64-bit signed integer of this value, if there is one. -/
def toInt64? (i : Int) : Option Int64 :=
  if -2 ^ 63 ≤ i ∧ i < 2 ^ 63 then some (Int64.ofInt i) else none

/-- An optional sign and digits, within the range of 64-bit signed integers. -/
def readInt64 (text : List Char) : Option Int64 :=
  (readInt text).bind toInt64?

theorem toInt64?_toInt (i : Int64) : toInt64? i.toInt = some i := by
  have hlo := Int64.le_toInt i
  have hhi := Int64.toInt_lt i
  simp only [toInt64?]
  rw [if_pos ⟨by simpa using hlo, by simpa using hhi⟩, Int64.ofInt_toInt]

end Decimal

end KeyedQuery
