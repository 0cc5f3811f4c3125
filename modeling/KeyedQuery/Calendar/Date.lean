/-!
# Days of the proleptic Gregorian calendar

Dates and the number of days since 1970-01-01, in integer arithmetic.  Years and
months are counted from March, so that the leap day is the last day of a counted
year and four hundred counted years form a cycle of 146097 days.  The date of a
day lies as many days after 1970-01-01 as it should: `Date.toDays_ofDays`.
-/

namespace KeyedQuery

namespace Calendar

/-- A year, a month from one, and a day of the month from one. -/
structure Date where
  year : Int
  month : Nat
  day : Nat
deriving DecidableEq, Repr

/-- A year with a leap day. -/
def isLeap (year : Int) : Bool :=
  year % 4 == 0 && (year % 100 != 0 || year % 400 == 0)

def daysInMonth (year : Int) (month : Nat) : Nat :=
  match month with
  | 2 => if isLeap year then 29 else 28
  | 4 | 6 | 9 | 11 => 30
  | _ => 31

/-- The number of days from the start of the counted year zero to 1970-01-01. -/
def daysBeforeEpoch : Int :=
  719468

/-- The number of days of four hundred years. -/
def daysPerCycle : Int :=
  146097

/-- The number of days before a counted year. -/
def daysBeforeYear (year : Int) : Int :=
  365 * year + year / 4 - year / 100 + year / 400

/-- The number of days of a counted year before one of its months; March is month zero. -/
def daysBeforeMonth (month : Int) : Int :=
  (153 * month + 2) / 5

/--
The counted year of a cycle in which a day of the cycle lies: its century, the
four years of the century, and the year of these.  The last day of the cycle
belongs to the fourth century, and a leap day to the fourth year.
-/
def yearOfCycle (day : Int) : Int :=
  let century := min (day / 36524) 3
  let dayOfCentury := day - 36524 * century
  let fourYears := dayOfCentury / 1461
  let dayOfFourYears := dayOfCentury - 1461 * fourYears
  100 * century + 4 * fourYears + min (dayOfFourYears / 365) 3

/-- The month of a counted year in which a day of the year lies. -/
def monthOfYear (day : Int) : Int :=
  (5 * day + 2) / 153

namespace Date

/-- The years that are supported, and a day that exists in its month. -/
def isValid (d : Date) : Bool :=
  -262143 ≤ d.year && d.year ≤ 262142 &&
    1 ≤ d.month && d.month ≤ 12 &&
    1 ≤ d.day && d.day ≤ daysInMonth d.year d.month

/-- The date of a counted year, a month counted from March, and a day counted from zero. -/
def ofCounted (year month day : Int) : Date :=
  if month < 10 then
    ⟨year, (month + 3).toNat, (day + 1).toNat⟩
  else
    ⟨year + 1, (month - 9).toNat, (day + 1).toNat⟩

/-- The number of days from 1970-01-01 to a date. -/
def toDays (d : Date) : Int :=
  let year := if d.month ≤ 2 then d.year - 1 else d.year
  let month : Int := if d.month ≤ 2 then d.month + 9 else d.month - 3
  daysBeforeYear year + daysBeforeMonth month + (d.day - 1) - daysBeforeEpoch

/-- The date that lies a number of days after 1970-01-01. -/
def ofDays (days : Int) : Date :=
  let dayOfCycle := (days + daysBeforeEpoch) % daysPerCycle
  let year := yearOfCycle dayOfCycle
  let dayOfYear := dayOfCycle - daysBeforeYear year
  let month := monthOfYear dayOfYear
  ofCounted (year + 400 * ((days + daysBeforeEpoch) / daysPerCycle)) month
    (dayOfYear - daysBeforeMonth month)

end Date

/-- A day of the cycle lies in its counted year, which is one of the cycle. -/
theorem yearOfCycle_spec {day : Int} (h0 : 0 ≤ day) (h1 : day < daysPerCycle) :
    0 ≤ yearOfCycle day ∧ yearOfCycle day ≤ 399 ∧
      daysBeforeYear (yearOfCycle day) ≤ day ∧
      day < daysBeforeYear (yearOfCycle day) + 366 := by
  simp only [yearOfCycle, daysPerCycle] at *
  generalize hc : min (day / 36524) 3 = c
  have hc' : 0 ≤ c ∧ c ≤ 3 ∧ 36524 * c ≤ day ∧ (day < 36524 * (c + 1) ∨ c = 3) := by omega
  generalize hd : day - 36524 * c = d
  have hd' : 0 ≤ d ∧ d ≤ 36524 ∧ (d < 36524 ∨ c = 3) := by omega
  generalize hf : d / 1461 = f
  have hf' : 0 ≤ f ∧ f ≤ 24 ∧ 1461 * f ≤ d ∧ d < 1461 * f + 1461 := by omega
  generalize he : d - 1461 * f = e
  have he' : 0 ≤ e ∧ e ≤ 1460 ∧ (f = 24 → c ≠ 3 → e < 1460) := by omega
  generalize hy : min (e / 365) 3 = y
  have hy' : 0 ≤ y ∧ y ≤ 3 ∧ 365 * y ≤ e ∧ (e < 365 * (y + 1) ∨ y = 3) := by omega
  have quarter : (100 * c + 4 * f + y) / 4 = 25 * c + f := by omega
  have hundredth : (100 * c + 4 * f + y) / 100 = c := by omega
  have cycle : (100 * c + 4 * f + y) / 400 = 0 := by omega
  simp only [daysBeforeYear, quarter, hundredth, cycle]
  omega

/-- Whole cycles have no leap days to spare. -/
theorem daysBeforeYear_add_cycles (year cycles : Int) :
    daysBeforeYear (year + 400 * cycles) = daysBeforeYear year + daysPerCycle * cycles := by
  simp only [daysBeforeYear, daysPerCycle]
  omega

/-- A day of a counted year lies in its month, which is one of the year. -/
theorem monthOfYear_spec {day : Int} (h0 : 0 ≤ day) (h1 : day < 366) :
    0 ≤ monthOfYear day ∧ monthOfYear day ≤ 11 ∧
      daysBeforeMonth (monthOfYear day) ≤ day := by
  simp only [monthOfYear, daysBeforeMonth]
  omega

namespace Date

/-- Counting days from a counted date gives back what it was counted from. -/
theorem toDays_ofCounted
    {year month day : Int} (h0 : 0 ≤ month) (h1 : month ≤ 11) (hday : 0 ≤ day) :
    (ofCounted year month day).toDays =
      daysBeforeYear year + daysBeforeMonth month + day - daysBeforeEpoch := by
  simp only [ofCounted]
  split
  · have hmonth : ¬(month + 3).toNat ≤ 2 := by omega
    have hcounted : (((month + 3).toNat : Int) - 3) = month := by omega
    simp only [toDays, hmonth, if_false, hcounted]
    omega
  · have hmonth : (month - 9).toNat ≤ 2 := by omega
    have hcounted : (((month - 9).toNat : Int) + 9) = month := by omega
    have hyear : year + 1 - 1 = year := by omega
    simp only [toDays, hmonth, if_true, hcounted, hyear]
    omega

/-- The date of a day is that many days after 1970-01-01. -/
theorem toDays_ofDays (days : Int) : (ofDays days).toDays = days := by
  simp only [ofDays]
  generalize hcycle : (days + daysBeforeEpoch) / daysPerCycle = cycle
  generalize hday : (days + daysBeforeEpoch) % daysPerCycle = day
  have hday' : 0 ≤ day ∧ day < daysPerCycle ∧
      daysPerCycle * cycle + day = days + daysBeforeEpoch := by
    simp only [daysPerCycle] at *
    omega
  obtain ⟨-, -, hlow, hhigh⟩ := yearOfCycle_spec hday'.1 hday'.2.1
  generalize yearOfCycle day = year at *
  obtain ⟨hmonth0, hmonth1, hmonth⟩ :=
    monthOfYear_spec (by omega : 0 ≤ day - daysBeforeYear year) (by omega)
  rw [toDays_ofCounted hmonth0 hmonth1 (by omega), daysBeforeYear_add_cycles]
  omega

end Date

end Calendar

end KeyedQuery
