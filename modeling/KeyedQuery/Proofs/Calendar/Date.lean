import Mathlib.Tactic.IntervalCases
import KeyedQuery.Calendar.Date

/-!
# Days and dates correspond

Counting days from 1970-01-01 and finding the date of a day are inverse to each
other on the dates that the calendar has.  A counted year ends where the next one
begins, and so does a month, so a day lies in one year and in one month only.
-/

namespace KeyedQuery

namespace Calendar

/-! ## Years -/

/-- The counted year of a day of the cycle has not ended on that day. -/
theorem lt_daysBeforeYear_yearOfCycle {day : Int} (h0 : 0 ≤ day) (h1 : day < daysPerCycle) :
    day < daysBeforeYear (yearOfCycle day + 1) := by
  simp only [yearOfCycle, daysPerCycle] at *
  generalize hc : min (day / 36524) 3 = c
  have hc' : 0 ≤ c ∧ c ≤ 3 ∧ 36524 * c ≤ day ∧ (day < 36524 * (c + 1) ∨ c = 3) := by omega
  generalize hd : day - 36524 * c = d
  have hd' : 0 ≤ d ∧ d ≤ 36524 ∧ (d < 36524 ∨ c = 3) := by omega
  generalize hf : d / 1461 = f
  have hf' : 0 ≤ f ∧ f ≤ 24 ∧ 1461 * f ≤ d ∧ d < 1461 * f + 1461 := by omega
  generalize he : d - 1461 * f = e
  have he' : 0 ≤ e ∧ e ≤ 1460 ∧ day = 36524 * c + 1461 * f + e ∧ (f = 24 → c ≠ 3 → e < 1460) := by
    omega
  generalize hy : min (e / 365) 3 = y
  have hy' : 0 ≤ y ∧ y ≤ 3 ∧ (e < 365 * (y + 1) ∨ y = 3) := by omega
  clear hc hd hf he hy
  -- The year that follows is one of the same four, or it starts the next four, the next
  -- century or the next cycle.
  rcases (by omega : y ≤ 2 ∨ y = 3) with hquarter | rfl
  · have quarter : (100 * c + 4 * f + y + 1) / 4 = 25 * c + f := by omega
    have hundredth : (100 * c + 4 * f + y + 1) / 100 = c := by omega
    simp only [daysBeforeYear, quarter, hundredth]
    omega
  · have quarter : (100 * c + 4 * f + 3 + 1) / 4 = 25 * c + f + 1 := by omega
    rcases (by omega : f ≤ 23 ∨ f = 24) with hhundredth | rfl
    · have hundredth : (100 * c + 4 * f + 3 + 1) / 100 = c := by omega
      simp only [daysBeforeYear, quarter, hundredth]
      omega
    · have hundredth : (100 * c + 4 * 24 + 3 + 1) / 100 = c + 1 := by omega
      have cycle : (100 * c + 4 * 24 + 3 + 1) / 400 = if c = 3 then 1 else 0 := by
        split <;> omega
      simp only [daysBeforeYear, quarter, hundredth, cycle]
      split <;> omega

theorem daysBeforeYear_mono {year year' : Int} (h : year ≤ year') :
    daysBeforeYear year ≤ daysBeforeYear year' := by
  simp only [daysBeforeYear]
  omega

/-- A counted year has the leap day of the year in which it ends. -/
theorem daysBeforeYear_succ (year : Int) :
    daysBeforeYear (year + 1) =
      daysBeforeYear year + if isLeap (year + 1) then 366 else 365 := by
  simp only [daysBeforeYear, isLeap, Bool.and_eq_true, Bool.or_eq_true, beq_iff_eq, bne_iff_ne]
  split <;> omega

/-- A day lies in one counted year only. -/
theorem eq_of_daysBeforeYear {year year' day : Int}
    (h : daysBeforeYear year ≤ day ∧ day < daysBeforeYear (year + 1))
    (h' : daysBeforeYear year' ≤ day ∧ day < daysBeforeYear (year' + 1)) : year = year' := by
  rcases Int.lt_trichotomy year year' with hlt | heq | hgt
  · have hmono := daysBeforeYear_mono (Int.add_one_le_of_lt hlt)
    omega
  · exact heq
  · have hmono := daysBeforeYear_mono (Int.add_one_le_of_lt hgt)
    omega

/-! ## Months -/

/-- The month of a day of a counted year has not ended on that day. -/
theorem lt_daysBeforeMonth_monthOfYear (day : Int) :
    day < daysBeforeMonth (monthOfYear day + 1) := by
  simp only [monthOfYear, daysBeforeMonth]
  omega

/-- A day of a month lies in that month. -/
theorem monthOfYear_daysBeforeMonth {month day : Int} (h0 : 0 ≤ day)
    (h1 : daysBeforeMonth month + day < daysBeforeMonth (month + 1)) :
    monthOfYear (daysBeforeMonth month + day) = month := by
  simp only [monthOfYear, daysBeforeMonth] at *
  omega

theorem daysInMonth_le (year : Int) (month : Nat) : daysInMonth year month ≤ 31 := by
  unfold daysInMonth
  split
  · split <;> decide
  all_goals decide

/-! ## Dates -/

namespace Date

/-- A date that the calendar has. -/
structure Real (d : Date) : Prop where
  month_pos : 1 ≤ d.month
  month_le : d.month ≤ 12
  day_pos : 1 ≤ d.day
  day_le : d.day ≤ daysInMonth d.year d.month

theorem isValid_iff {d : Date} :
    d.isValid = true ↔ d.Real ∧ -262143 ≤ d.year ∧ d.year ≤ 262142 := by
  simp only [isValid, Bool.and_eq_true, decide_eq_true_eq]
  constructor
  · rintro ⟨⟨⟨⟨⟨hlow, hhigh⟩, hmonth⟩, hmonth'⟩, hday⟩, hday'⟩
    exact ⟨⟨hmonth, hmonth', hday, hday'⟩, hlow, hhigh⟩
  · rintro ⟨h, hlow, hhigh⟩
    exact ⟨⟨⟨⟨⟨hlow, hhigh⟩, h.month_pos⟩, h.month_le⟩, h.day_pos⟩, h.day_le⟩

/-- A counted month is as long as the month of the calendar, apart from the last one. -/
theorem daysInMonth_ofCounted (year day : Int) {month : Int} (h0 : 0 ≤ month)
    (h1 : month ≤ 10) :
    daysInMonth (ofCounted year month day).year (ofCounted year month day).month =
      daysBeforeMonth (month + 1) - daysBeforeMonth month := by
  interval_cases month <;> rfl

/-- The last counted month is February, which ends when the counted year does. -/
theorem daysInMonth_ofCounted_last (year day : Int) :
    daysInMonth (ofCounted year 11 day).year (ofCounted year 11 day).month =
      daysBeforeYear (year + 1) - daysBeforeYear year - daysBeforeMonth 11 := by
  have hlast : daysBeforeMonth 11 = 337 := by decide
  have hdays : daysInMonth (ofCounted year 11 day).year (ofCounted year 11 day).month =
      if isLeap (year + 1) then 29 else 28 := rfl
  rw [hdays, daysBeforeYear_succ, hlast]
  split <;> omega

theorem real_ofCounted {year month day : Int} (hmonth0 : 0 ≤ month) (hmonth1 : month ≤ 11)
    (hday : 0 ≤ day) (hmonth : daysBeforeMonth month + day < daysBeforeMonth (month + 1))
    (hyear : daysBeforeYear year + (daysBeforeMonth month + day) < daysBeforeYear (year + 1)) :
    (ofCounted year month day).Real := by
  have hlength : (day + 1).toNat ≤
      daysInMonth (ofCounted year month day).year (ofCounted year month day).month := by
    rcases (by omega : month ≤ 10 ∨ month = 11) with hearlier | rfl
    · have hdays := daysInMonth_ofCounted year day hmonth0 hearlier
      omega
    · have hdays := daysInMonth_ofCounted_last year day
      omega
  have hmonths : 1 ≤ (ofCounted year month day).month ∧
      (ofCounted year month day).month ≤ 12 ∧
      (ofCounted year month day).day = (day + 1).toNat := by
    unfold ofCounted
    split <;> dsimp only <;> omega
  obtain ⟨hpos, hle, hcounted⟩ := hmonths
  exact ⟨hpos, hle, by omega, by omega⟩

/-- The date of a day is a date of the calendar. -/
theorem real_ofDays (days : Int) : (ofDays days).Real := by
  simp only [ofDays]
  generalize hcycle : (days + daysBeforeEpoch) / daysPerCycle = cycle
  generalize hday : (days + daysBeforeEpoch) % daysPerCycle = day
  have hday' : 0 ≤ day ∧ day < daysPerCycle := by
    simp only [daysPerCycle] at *
    omega
  obtain ⟨-, -, hlow, hhigh⟩ := yearOfCycle_spec hday'.1 hday'.2
  have hend := lt_daysBeforeYear_yearOfCycle hday'.1 hday'.2
  generalize yearOfCycle day = year at *
  obtain ⟨hmonth0, hmonth1, hmonth⟩ :=
    monthOfYear_spec (by omega : 0 ≤ day - daysBeforeYear year) (by omega)
  have hmonthEnd := lt_daysBeforeMonth_monthOfYear (day - daysBeforeYear year)
  have hnext : year + 400 * cycle + 1 = year + 1 + 400 * cycle := by omega
  refine real_ofCounted hmonth0 hmonth1 (by omega) (by omega) ?_
  rw [hnext, daysBeforeYear_add_cycles, daysBeforeYear_add_cycles]
  omega

/-- The date of a counted month and a day, with the month and the day as they were counted. -/
theorem exists_ofCounted {d : Date} (hmonth0 : 1 ≤ d.month) (hmonth1 : d.month ≤ 12)
    (hday : 1 ≤ d.day) :
    ∃ year month day : Int, d = ofCounted year month day ∧ 0 ≤ month ∧ month ≤ 11 ∧
      0 ≤ day ∧ day + 1 = d.day := by
  obtain ⟨year, month, day⟩ := d
  dsimp only at *
  have hback : ((day : Int) - 1 + 1).toNat = day := by omega
  rcases (by omega : month ≤ 2 ∨ 2 < month) with hearly | hlate
  · have hcounted : ¬ ((month : Int) + 9 < 10) := by omega
    have hmonth : ((month : Int) + 9 - 9).toNat = month := by omega
    have hyear : year - 1 + 1 = year := by omega
    refine ⟨year - 1, month + 9, day - 1, ?_, by omega, by omega, by omega, by omega⟩
    rw [ofCounted, if_neg hcounted, hmonth, hyear, hback]
  · have hcounted : (month : Int) - 3 < 10 := by omega
    have hmonth : ((month : Int) - 3 + 3).toNat = month := by omega
    refine ⟨year, month - 3, day - 1, ?_, by omega, by omega, by omega, by omega⟩
    rw [ofCounted, if_pos hcounted, hmonth, hback]

/-- A day of a counted month lies in the month and in the counted year. -/
theorem Real.lt_daysBefore {year month day : Int} (h : (ofCounted year month day).Real)
    (hmonth0 : 0 ≤ month) (hmonth1 : month ≤ 11)
    (hday : day + 1 = (ofCounted year month day).day) :
    daysBeforeMonth month + day < daysBeforeMonth (month + 1) ∧
      daysBeforeYear year + (daysBeforeMonth month + day) < daysBeforeYear (year + 1) := by
  have hlength := h.day_le
  have hyear := daysBeforeYear_succ year
  rcases (by omega : month ≤ 10 ∨ month = 11) with hearlier | rfl
  · have hdays := daysInMonth_ofCounted year day hmonth0 hearlier
    have hbound : daysBeforeMonth (month + 1) ≤ 337 := by
      simp only [daysBeforeMonth]
      omega
    split at hyear <;> omega
  · have hdays := daysInMonth_ofCounted_last year day
    have hlast : daysBeforeMonth 11 = 337 := by decide
    have hend : daysBeforeMonth (11 + 1) = 367 := by decide
    split at hyear <;> omega

/-- The day of a date of the calendar leads back to the date. -/
theorem Real.ofDays_toDays {d : Date} (h : d.Real) : ofDays d.toDays = d := by
  obtain ⟨year, month, day, rfl, hmonth0, hmonth1, hday0, hday⟩ :=
    exists_ofCounted h.month_pos h.month_le h.day_pos
  obtain ⟨hmonth, hyear⟩ := h.lt_daysBefore hmonth0 hmonth1 hday
  have hstart : 0 ≤ daysBeforeMonth month := by
    simp only [daysBeforeMonth]
    omega
  rw [toDays_ofCounted hmonth0 hmonth1 hday0]
  generalize hdays : daysBeforeYear year + daysBeforeMonth month + day - daysBeforeEpoch = days
  simp only [ofDays]
  generalize hcycle : (days + daysBeforeEpoch) / daysPerCycle = cycle
  generalize hdayOfCycle : (days + daysBeforeEpoch) % daysPerCycle = dayOfCycle
  have hsplit : 0 ≤ dayOfCycle ∧ dayOfCycle < daysPerCycle ∧
      daysPerCycle * cycle + dayOfCycle = days + daysBeforeEpoch := by
    simp only [daysPerCycle] at *
    omega
  obtain ⟨-, -, hlow, -⟩ := yearOfCycle_spec hsplit.1 hsplit.2.1
  have hhigh := lt_daysBeforeYear_yearOfCycle hsplit.1 hsplit.2.1
  generalize yearOfCycle dayOfCycle = found at *
  have hstarts := daysBeforeYear_add_cycles found cycle
  have hends := daysBeforeYear_add_cycles (found + 1) cycle
  have hnext : found + 400 * cycle + 1 = found + 1 + 400 * cycle := by omega
  have hwithin : daysBeforeYear (found + 400 * cycle) ≤ days + daysBeforeEpoch ∧
      days + daysBeforeEpoch < daysBeforeYear (found + 400 * cycle + 1) := by
    rw [hnext]
    omega
  have hfound : found + 400 * cycle = year := eq_of_daysBeforeYear hwithin (by omega)
  have hdayOfYear : dayOfCycle - daysBeforeYear found = daysBeforeMonth month + day := by
    rw [hfound] at hstarts
    omega
  rw [hfound, hdayOfYear, monthOfYear_daysBeforeMonth hday0 hmonth, add_sub_cancel_left]

end Date

end Calendar

end KeyedQuery
