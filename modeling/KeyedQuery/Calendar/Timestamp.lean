import KeyedQuery.Calendar.Date
import KeyedQuery.Decimal.Whole
import KeyedQuery.Text.Blank

/-!
# Instants as text

Instants are milliseconds since the start of 1970 in UTC.  They are written in
one form, with three decimals and a `Z`, and read in three: a date with time and
offset, a date alone, and the milliseconds themselves.
-/

namespace KeyedQuery

namespace Calendar

/-- The number of milliseconds of a day. -/
def millisPerDay : Int :=
  86400000

/-- The text of a year: four digits, or a sign and at least four digits. -/
def yearDigits (year : Int) : List Char :=
  if year < 0 then '-' :: Decimal.padded 4 year.natAbs
  else if 9999 < year then '+' :: Decimal.padded 4 year.natAbs
  else Decimal.padded 4 year.natAbs

/-- `YYYY-MM-DDTHH:MM:SS.mmmZ`, for an instant whose year is supported. -/
def writeInstant (millis : Int) : Option String :=
  let date := Date.ofDays (millis / millisPerDay)
  if date.isValid then
    let clock := (millis % millisPerDay).toNat
    some <| String.ofList <|
      yearDigits date.year ++ '-' :: Decimal.padded 2 date.month ++
        '-' :: Decimal.padded 2 date.day ++
        'T' :: Decimal.padded 2 (clock / 3600000) ++
        ':' :: Decimal.padded 2 (clock / 60000 % 60) ++
        ':' :: Decimal.padded 2 (clock / 1000 % 60) ++
        '.' :: Decimal.padded 3 (clock % 1000) ++ ['Z']
  else
    none

/-- Exactly `width` digits, and what follows them. -/
def takeDigits (width : Nat) (text : List Char) : Option (Nat × List Char) :=
  let digits := text.take width
  if digits.length = width ∧ digits.all Char.isDigit then
    some (Decimal.ofDigits digits, text.drop width)
  else
    none

def expect (c : Char) : List Char → Option (List Char)
  | d :: rest => if d = c then some rest else none
  | [] => none

/-- The milliseconds of an optional fraction of a second, and what follows it. -/
def takeFraction : List Char → Option (Nat × List Char)
  | '.' :: rest =>
      let digits := rest.takeWhile Char.isDigit
      if digits.isEmpty then
        none
      else
        some (Decimal.ofDigits ((digits ++ ['0', '0']).take 3), rest.dropWhile Char.isDigit)
  | rest => some (0, rest)

/-- The minutes by which a zone is ahead of UTC: `Z`, or a sign and `HH:MM`. -/
def readOffset : List Char → Option Int
  | [] => none
  | sign :: rest =>
      if sign = 'Z' ∨ sign = 'z' then
        if rest.isEmpty then some 0 else none
      else if sign = '+' ∨ sign = '-' ∨ sign = '\u2212' then do
        let (hours, rest) ← takeDigits 2 rest
        let rest ← expect ':' rest
        let (minutes, rest) ← takeDigits 2 rest
        if hours ≤ 23 ∧ minutes ≤ 59 ∧ rest = [] then
          let ahead : Int := 60 * hours + minutes
          some (if sign = '+' then ahead else -ahead)
        else
          none
      else
        none

/--
A date with a time of day and an offset: `YYYY-MM-DD`, then `T`, `t` or a space,
`HH:MM:SS` with an optional fraction, and the offset.  A sixtieth second is one
second past the fifty-ninth.
-/
def readInstant (text : List Char) : Option Int := do
  let (year, rest) ← takeDigits 4 text
  let rest ← expect '-' rest
  let (month, rest) ← takeDigits 2 rest
  let rest ← expect '-' rest
  let (day, rest) ← takeDigits 2 rest
  let rest ←
    match rest with
    | mark :: rest => if mark = 'T' ∨ mark = 't' ∨ mark = ' ' then some rest else none
    | [] => none
  let (hour, rest) ← takeDigits 2 rest
  let rest ← expect ':' rest
  let (minute, rest) ← takeDigits 2 rest
  let rest ← expect ':' rest
  let (second, rest) ← takeDigits 2 rest
  let (millis, rest) ← takeFraction rest
  let ahead ← readOffset rest
  let date : Date := ⟨year, month, day⟩
  if date.isValid ∧ hour ≤ 23 ∧ minute ≤ 59 ∧ second ≤ 60 then
    some (date.toDays * millisPerDay +
      (3600000 * hour + 60000 * minute + 1000 * second + millis : Nat) - 60000 * ahead)
  else
    none

/-- At most `width` digits, at least one, and what follows them. -/
def takeUpTo (width : Nat) (text : List Char) : Option (Nat × List Char) :=
  let digits := (text.take width).takeWhile Char.isDigit
  if digits.isEmpty then none else some (Decimal.ofDigits digits, text.drop digits.length)

/-- A year of up to four digits, or a sign and any number of digits. -/
def takeYear (text : List Char) : Option (Int × List Char) :=
  match text with
  | '-' :: rest => (takeUpTo rest.length rest).map fun (year, rest) => (-(year : Int), rest)
  | '+' :: rest => (takeUpTo rest.length rest).map fun (year, rest) => ((year : Int), rest)
  | _ => (takeUpTo 4 text).map fun (year, rest) => ((year : Int), rest)

/--
A date alone, which stands for its midnight in UTC: a year, a month and a day
joined by hyphens, where white space may stand before each number.
-/
def readDate (text : List Char) : Option Int := do
  let (year, rest) ← takeYear (Text.trimLeft text)
  let rest ← expect '-' rest
  let (month, rest) ← takeUpTo 2 (Text.trimLeft rest)
  let rest ← expect '-' rest
  let (day, rest) ← takeUpTo 2 (Text.trimLeft rest)
  let date : Date := ⟨year, month, day⟩
  if date.isValid ∧ rest = [] then some (date.toDays * millisPerDay) else none

/-- The instant that a text stands for, in the first of the three forms that reads. -/
def readTimestamp (text : List Char) : Option Int64 :=
  match readInstant text with
  | some millis => some (Int64.ofInt millis)
  | none =>
      match readDate text with
      | some millis => some (Int64.ofInt millis)
      | none => Decimal.readInt64 text

end Calendar

end KeyedQuery
