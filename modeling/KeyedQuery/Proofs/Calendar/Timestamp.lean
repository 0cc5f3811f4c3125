import KeyedQuery.Calendar.Timestamp
import KeyedQuery.Proofs.Calendar.Date
import KeyedQuery.Proofs.Decimal.Whole
import KeyedQuery.Proofs.Expression.Spelling

/-!
# Written instants read back

An instant of a year with four digits is written as one text, and that text is read as
the instant.  The text of any other year starts with a sign: no date with a time does,
a date alone has nothing behind its day, and an integer has digits only, so such a text
is not read at all.
-/

namespace KeyedQuery

namespace Calendar

/-! ## Readers -/

theorem bind_of_eq_some {α β : Type} {x : Option α} {a : α} (h : x = some a) (f : α → Option β) :
    (x >>= f) = f a := by
  rw [h]
  rfl

theorem expect_cons (c : Char) (rest : List Char) : expect c (c :: rest) = some rest := by
  simp [expect]

/-- Exactly as many digits as wanted are taken, whatever follows them. -/
theorem takeDigits_append {width : Nat} {digits : List Char} (hlength : digits.length = width)
    (hdigits : ∀ c ∈ digits, c.isDigit = true) (rest : List Char) :
    takeDigits width (digits ++ rest) = some (Decimal.ofDigits digits, rest) := by
  have htake : (digits ++ rest).take width = digits := List.take_left' hlength
  have hdrop : (digits ++ rest).drop width = rest := List.drop_left' hlength
  have hall : digits.all Char.isDigit = true := List.all_eq_true.mpr hdigits
  simp only [takeDigits, htake, hdrop]
  rw [if_pos ⟨hlength, hall⟩]

theorem takeDigits_padded {width n : Nat} (hwidth : 0 < width) (h : n < 10 ^ width)
    (rest : List Char) :
    takeDigits width (Decimal.padded width n ++ rest) = some (n, rest) := by
  rw [takeDigits_append (Decimal.length_padded hwidth h)
    fun c hc => Decimal.isDigit_of_mem_padded hc, Decimal.ofDigits_padded]

/-- A number is taken up to the character behind it, if that is no digit. -/
theorem takeUpTo_append {width : Nat} {digits : List Char} (hne : digits ≠ [])
    (hlength : digits.length ≤ width) (hdigits : ∀ c ∈ digits, c.isDigit = true) {c : Char}
    (hc : c.isDigit = false) (rest : List Char) :
    takeUpTo width (digits ++ c :: rest) = some (Decimal.ofDigits digits, c :: rest) := by
  have htake : ((digits ++ c :: rest).take width).takeWhile Char.isDigit = digits := by
    rw [List.take_append, List.take_of_length_le hlength, List.takeWhile_append_of_pos hdigits]
    cases width - digits.length with
    | zero => simp
    | succ n => simp [hc]
  have hdrop : (digits ++ c :: rest).drop digits.length = c :: rest := List.drop_left
  have hempty : ¬ digits.isEmpty = true := by simpa using hne
  simp only [takeUpTo, htake, hdrop]
  rw [if_neg hempty]

/-- A fraction of three digits counts milliseconds. -/
theorem takeFraction_append {digits : List Char} (hlength : digits.length = 3)
    (hdigits : ∀ c ∈ digits, c.isDigit = true) {c : Char} (hc : c.isDigit = false)
    (rest : List Char) :
    takeFraction ('.' :: (digits ++ c :: rest)) = some (Decimal.ofDigits digits, c :: rest) := by
  have htake : (digits ++ c :: rest).takeWhile Char.isDigit = digits := by
    rw [List.takeWhile_append_of_pos hdigits]
    simp [hc]
  have hdrop : (digits ++ c :: rest).dropWhile Char.isDigit = c :: rest := by
    rw [List.dropWhile_append_of_pos hdigits]
    simp [hc]
  have hthree : (digits ++ ['0', '0']).take 3 = digits := List.take_left' hlength
  have hempty : ¬ digits.isEmpty = true := by
    cases digits with
    | nil => cases hlength
    | cons _ _ => simp
  simp only [takeFraction, htake, hdrop, hthree]
  rw [if_neg hempty]

theorem readOffset_utc : readOffset ['Z'] = some 0 :=
  rfl

/-! ## The written form -/

/-- What is written behind the year: month, day and time of day. -/
def afterYear (d : Date) (clock : Nat) : List Char :=
  '-' :: (Decimal.padded 2 d.month ++ '-' :: (Decimal.padded 2 d.day ++
    'T' :: (Decimal.padded 2 (clock / 3600000) ++
      ':' :: (Decimal.padded 2 (clock / 60000 % 60) ++
        ':' :: (Decimal.padded 2 (clock / 1000 % 60) ++
          '.' :: (Decimal.padded 3 (clock % 1000) ++ ['Z']))))))

theorem writeInstant_eq (millis : Int) :
    writeInstant millis =
      if (Date.ofDays (millis / millisPerDay)).isValid then
        some (String.ofList (yearDigits (Date.ofDays (millis / millisPerDay)).year ++
          afterYear (Date.ofDays (millis / millisPerDay)) (millis % millisPerDay).toNat))
      else
        none := by
  simp only [writeInstant, afterYear, List.append_assoc, List.cons_append]

theorem not_isBlank_of_isDigit {c : Char} (h : c.isDigit = true) : Text.isBlank c = false :=
  not_isBlank_of_isWordChar (isWordChar_of_isDigit h)

theorem not_isBlank_of_mem_padded {width n : Nat} {c : Char} (h : c ∈ Decimal.padded width n) :
    Text.isBlank c = false :=
  not_isBlank_of_isDigit (Decimal.isDigit_of_mem_padded h)

theorem not_isBlank_of_mem_yearDigits {year : Int} {c : Char} (h : c ∈ yearDigits year) :
    Text.isBlank c = false := by
  unfold yearDigits at h
  split at h
  · rcases List.mem_cons.mp h with rfl | h
    · rfl
    · exact not_isBlank_of_mem_padded h
  · split at h
    · rcases List.mem_cons.mp h with rfl | h
      · rfl
      · exact not_isBlank_of_mem_padded h
    · exact not_isBlank_of_mem_padded h

theorem not_isBlank_of_mem_afterYear {d : Date} {clock : Nat} {c : Char}
    (h : c ∈ afterYear d clock) : Text.isBlank c = false := by
  simp only [afterYear, List.mem_cons, List.mem_append, List.not_mem_nil, or_false] at h
  rcases h with rfl | h | rfl | h | rfl | h | rfl | h | rfl | h | rfl | h | rfl <;>
    first | rfl | exact not_isBlank_of_mem_padded h

/-- A written instant is not trimmed. -/
theorem trim_written (d : Date) (clock : Nat) :
    Text.trim (yearDigits d.year ++ afterYear d clock) = yearDigits d.year ++ afterYear d clock := by
  apply Text.trim_eq_self
  intro c hc
  rcases List.mem_append.mp hc with hc | hc
  · exact not_isBlank_of_mem_yearDigits hc
  · exact not_isBlank_of_mem_afterYear hc

/-! ## Years of four digits -/

theorem yearDigits_of_four {year : Int} (h0 : 0 ≤ year) (h1 : year ≤ 9999) :
    yearDigits year = Decimal.padded 4 year.natAbs := by
  have hneg : ¬ year < 0 := by omega
  have hlong : ¬ 9999 < year := by omega
  rw [yearDigits, if_neg hneg, if_neg hlong]

/-- A written date and time of day are read back. -/
theorem readInstant_written {d : Date} (hd : d.isValid = true) (h0 : 0 ≤ d.year)
    (h1 : d.year ≤ 9999) {clock : Nat} (hclock : clock < 86400000) :
    readInstant (yearDigits d.year ++ afterYear d clock) =
      some (d.toDays * millisPerDay + clock) := by
  obtain ⟨hreal, -, -⟩ := Date.isValid_iff.mp hd
  have hmonth := hreal.month_le
  have hday : d.day ≤ 31 := hreal.day_le.trans (daysInMonth_le _ _)
  have hdate : (⟨(d.year.natAbs : Int), d.month, d.day⟩ : Date) = d := by
    rw [Int.natAbs_of_nonneg h0]
  have hclock' : 3600000 * (clock / 3600000) + 60000 * (clock / 60000 % 60) +
      1000 * (clock / 1000 % 60) + clock % 1000 = clock := by omega
  have hfraction := takeFraction_append
    (Decimal.length_padded (by decide) (by omega : clock % 1000 < 10 ^ 3))
    (fun c hc => Decimal.isDigit_of_mem_padded hc) (by decide : 'Z'.isDigit = false) []
  rw [Decimal.ofDigits_padded] at hfraction
  have hyear4 : d.year.natAbs < 10 ^ 4 := by omega
  have hmonth2 : d.month < 10 ^ 2 := by omega
  have hday2 : d.day < 10 ^ 2 := by omega
  have hhour2 : clock / 3600000 < 10 ^ 2 := by omega
  have hminute2 : clock / 60000 % 60 < 10 ^ 2 := by omega
  have hsecond2 : clock / 1000 % 60 < 10 ^ 2 := by omega
  have hparts : d.isValid = true ∧ clock / 3600000 ≤ 23 ∧ clock / 60000 % 60 ≤ 59 ∧
      clock / 1000 % 60 ≤ 60 := ⟨hd, by omega, by omega, by omega⟩
  rw [yearDigits_of_four h0 h1, afterYear, readInstant,
    bind_of_eq_some (takeDigits_padded (by decide) hyear4 _)]
  dsimp only
  rw [bind_of_eq_some (expect_cons '-' _),
    bind_of_eq_some (takeDigits_padded (by decide) hmonth2 _)]
  dsimp only
  rw [bind_of_eq_some (expect_cons '-' _),
    bind_of_eq_some (takeDigits_padded (by decide) hday2 _)]
  dsimp only
  rw [if_pos (.inl rfl), bind_of_eq_some rfl,
    bind_of_eq_some (takeDigits_padded (by decide) hhour2 _)]
  dsimp only
  rw [bind_of_eq_some (expect_cons ':' _),
    bind_of_eq_some (takeDigits_padded (by decide) hminute2 _)]
  dsimp only
  rw [bind_of_eq_some (expect_cons ':' _),
    bind_of_eq_some (takeDigits_padded (by decide) hsecond2 _)]
  dsimp only
  rw [bind_of_eq_some hfraction, bind_of_eq_some (readOffset_utc), hdate, if_pos hparts, hclock']
  simp

/-! ## Other years -/

/-- A year that has not four digits is written with a sign. -/
theorem exists_sign_yearDigits {year : Int} (h : year < 0 ∨ 9999 < year) :
    ∃ sign, (sign = '-' ∨ sign = '+') ∧
      yearDigits year = sign :: Decimal.padded 4 year.natAbs := by
  unfold yearDigits
  split
  · exact ⟨'-', .inl rfl, rfl⟩
  · have hlong : 9999 < year := by omega
    rw [if_pos hlong]
    exact ⟨'+', .inr rfl, rfl⟩

theorem isDigit_sign {sign : Char} (h : sign = '-' ∨ sign = '+') : sign.isDigit = false := by
  rcases h with rfl | rfl <;> rfl

theorem readInstant_signed {sign : Char} (h : sign.isDigit = false) (rest : List Char) :
    readInstant (sign :: rest) = none := by
  have hfirst : takeDigits 4 (sign :: rest) = none := by
    simp [takeDigits, h]
  rw [readInstant, hfirst]
  rfl

theorem takeYear_signed {sign : Char} (h : sign = '-' ∨ sign = '+') {digits : List Char}
    (hne : digits ≠ []) (hdigits : ∀ c ∈ digits, c.isDigit = true) (rest : List Char) :
    ∃ year, takeYear (sign :: (digits ++ '-' :: rest)) = some (year, '-' :: rest) := by
  have htake := takeUpTo_append hne (by simp : digits.length ≤ (digits ++ '-' :: rest).length)
    hdigits (by decide : '-'.isDigit = false) rest
  rcases h with rfl | rfl
  · exact ⟨_, by rw [takeYear, htake]; rfl⟩
  · exact ⟨_, by rw [takeYear, htake]; rfl⟩

/-- Two digits are taken for a month or a day, without white space before them. -/
theorem takeUpTo_padded {n : Nat} (h : n < 10 ^ 2) {c : Char} (hc : c.isDigit = false)
    (rest : List Char) :
    takeUpTo 2 (Text.trimLeft (Decimal.padded 2 n ++ c :: rest)) = some (n, c :: rest) := by
  have hlength : (Decimal.padded 2 n).length = 2 := Decimal.length_padded (by decide) h
  have htrim : Text.trimLeft (Decimal.padded 2 n ++ c :: rest) = Decimal.padded 2 n ++ c :: rest := by
    obtain ⟨first, others, hcons⟩ :=
      List.exists_cons_of_ne_nil (Decimal.padded_ne_nil 2 n)
    have hfirst : first ∈ Decimal.padded 2 n := by rw [hcons]; exact List.mem_cons_self
    rw [hcons]
    exact Text.trimLeft_cons (not_isBlank_of_mem_padded hfirst)
  rw [htrim, takeUpTo_append (Decimal.padded_ne_nil 2 n) (by omega)
    (fun c hc => Decimal.isDigit_of_mem_padded hc) hc, Decimal.ofDigits_padded]

/-- A date alone has nothing behind its day. -/
theorem readDate_written {d : Date} (hd : d.Real) {sign : Char} (hsign : sign = '-' ∨ sign = '+')
    (n clock : Nat) :
    readDate (sign :: (Decimal.padded 4 n ++ afterYear d clock)) = none := by
  have hmonth := hd.month_le
  have hday : d.day ≤ 31 := hd.day_le.trans (daysInMonth_le _ _)
  have hmonth2 : d.month < 10 ^ 2 := by omega
  have hday2 : d.day < 10 ^ 2 := by omega
  have hblank : Text.isBlank sign = false := by
    rcases hsign with rfl | rfl <;> rfl
  rw [afterYear]
  obtain ⟨year, hyear⟩ := takeYear_signed hsign (Decimal.padded_ne_nil 4 n)
    (fun c hc => Decimal.isDigit_of_mem_padded hc) _
  rw [readDate, Text.trimLeft_cons hblank, bind_of_eq_some hyear]
  dsimp only
  rw [bind_of_eq_some (expect_cons '-' _), bind_of_eq_some (takeUpTo_padded hmonth2 rfl _)]
  dsimp only
  rw [bind_of_eq_some (expect_cons '-' _), bind_of_eq_some (takeUpTo_padded hday2 rfl _)]
  simp

/-- A date and time with a sign before its year is no timestamp. -/
theorem readTimestamp_signed {d : Date} (hd : d.Real) (hyear : d.year < 0 ∨ 9999 < d.year)
    (clock : Nat) : readTimestamp (yearDigits d.year ++ afterYear d clock) = none := by
  obtain ⟨sign, hsign, hdigits⟩ := exists_sign_yearDigits hyear
  have hinteger : Decimal.readInt64
      (sign :: (Decimal.padded 4 d.year.natAbs ++ afterYear d clock)) = none := by
    apply Decimal.readInt64_eq_none (c := 'T')
    · rcases hsign with rfl | rfl <;> simp [Decimal.splitSign, afterYear]
    · rfl
  rw [hdigits, List.cons_append, readTimestamp, readInstant_signed (isDigit_sign hsign),
    readDate_written hd hsign, hinteger]

/-- The first instant after the year 9999. -/
example : writeInstant 253402300800000 = some "+10000-01-01T00:00:00.000Z" ∧
    readTimestamp "+10000-01-01T00:00:00.000Z".toList = none := by
  decide +kernel

/-! ## Round trip -/

/-- The date of an instant in UTC. -/
def Date.IsOf (d : Date) (millis : Int) : Prop :=
  d.Real ∧ d.toDays = millis / millisPerDay

theorem Date.isOf_ofDays (millis : Int) : (Date.ofDays (millis / millisPerDay)).IsOf millis :=
  ⟨Date.real_ofDays _, Date.toDays_ofDays _⟩

/-- An instant is written if its date has a year that is supported. -/
theorem writeInstant_of_isOf {millis : Int} {d : Date} (h : d.IsOf millis) :
    writeInstant millis =
      if d.isValid then
        some (String.ofList (yearDigits d.year ++ afterYear d (millis % millisPerDay).toNat))
      else
        none := by
  rw [writeInstant_eq, ← h.2, h.1.ofDays_toDays]

/-- A 64-bit instant of a year with four digits is read back from what is written. -/
theorem readTimestamp_written {ms : Int64} {d : Date} (hd : d.isValid = true)
    (h : d.IsOf ms.toInt) (h0 : 0 ≤ d.year) (h1 : d.year ≤ 9999) :
    readTimestamp (yearDigits d.year ++ afterYear d (ms.toInt % millisPerDay).toNat) =
      some ms := by
  have hclock : (ms.toInt % millisPerDay).toNat < 86400000 := by
    unfold millisPerDay
    omega
  have hmillis : d.toDays * millisPerDay + ((ms.toInt % millisPerDay).toNat : Int) = ms.toInt := by
    rw [h.2]
    unfold millisPerDay
    omega
  rw [readTimestamp, readInstant_written hd h0 h1 hclock, hmillis]
  exact congrArg some (Int64.ofInt_toInt ms)

end Calendar

end KeyedQuery
