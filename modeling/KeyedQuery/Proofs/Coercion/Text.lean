import KeyedQuery.Coercion
import KeyedQuery.Proofs.Calendar.Timestamp

/-!
# Coercion to text and back

The text of an integer or a truth value converts back to what it was made from.  So
does the text of an instant, as long as its year has four digits; the text of any other
instant has a form that dates do not have, and it converts to no instant at all.
-/

namespace KeyedQuery

/-- The text of an integer has no white space. -/
theorem Decimal.not_isBlank_of_mem_intDigits {i : Int} {c : Char} (h : c ∈ Decimal.intDigits i) :
    Text.isBlank c = false := by
  unfold Decimal.intDigits at h
  split at h
  · rcases List.mem_cons.mp h with rfl | h
    · rfl
    · exact Calendar.not_isBlank_of_isDigit (Decimal.isDigit_of_mem_digits h)
  · exact Calendar.not_isBlank_of_isDigit (Decimal.isDigit_of_mem_digits h)

namespace Value

/-! ## Integers and truth values -/

theorem coerce?_int_back (i : Int64) :
    ((Value.int i).coerce? .string).bind (·.coerce? .number) = some (.int i) := by
  have hstring : (Value.int i).coerce? .string = some (.string (Decimal.intText i.toInt)) := rfl
  have hnumber : (Value.string (Decimal.intText i.toInt)).coerce? .number =
      readNumber (Text.trim (Decimal.intDigits i.toInt)) := by
    simp [coerce?, isNull, toNumber?, Decimal.intText]
  rw [hstring, Option.bind_some, hnumber,
    Text.trim_eq_self fun c hc => Decimal.not_isBlank_of_mem_intDigits hc, readNumber,
    Decimal.readInt64_intDigits]

theorem coerce?_bool_back (b : Bool) :
    ((Value.bool b).coerce? .string).bind (·.coerce? .boolean) = some (.bool b) := by
  have hread : readBool (Text.trim (if b then "true" else "false").toList) = some b := by
    cases b <;> decide +kernel
  exact congrArg (Option.map Value.bool) hread

/-! ## Instants -/

/-- An instant has a text if its date has a year that is supported. -/
theorem isSome_coerce?_timestamp {ms : Int64} {d : Calendar.Date} (h : d.IsOf ms.toInt) :
    ((Value.timestamp ms).coerce? .string).isSome ↔ -262143 ≤ d.year ∧ d.year ≤ 262142 := by
  have hstring : (Value.timestamp ms).coerce? .string =
      (Calendar.writeInstant ms.toInt).map .string := rfl
  rw [hstring, Option.isSome_map, Calendar.writeInstant_of_isOf h]
  by_cases hvalid : d.isValid = true
  · simp [hvalid, (Calendar.Date.isValid_iff.mp hvalid).2]
  · have hyear : ¬ (-262143 ≤ d.year ∧ d.year ≤ 262142) :=
      fun hyear => hvalid (Calendar.Date.isValid_iff.mpr ⟨h.1, hyear⟩)
    simp only [if_neg hvalid, Option.isSome_none, Bool.false_eq_true, hyear]

/-- The text of a date and a time of day, as an instant. -/
theorem coerce?_date_written (d : Calendar.Date) (clock : Nat) :
    (Value.string (String.ofList (Calendar.yearDigits d.year ++ Calendar.afterYear d clock))).coerce?
        .date =
      (Calendar.readTimestamp (Calendar.yearDigits d.year ++ Calendar.afterYear d clock)).map
        .timestamp := by
  simp only [coerce?, isNull, Bool.false_eq_true, if_false, toInstant?, String.toList_ofList,
    Calendar.trim_written]

theorem coerce?_timestamp_back {ms : Int64} {d : Calendar.Date} (h : d.IsOf ms.toInt) :
    ((Value.timestamp ms).coerce? .string).bind (·.coerce? .date) =
      if 0 ≤ d.year ∧ d.year ≤ 9999 then some (.timestamp ms) else none := by
  have hstring : (Value.timestamp ms).coerce? .string =
      (Calendar.writeInstant ms.toInt).map .string := rfl
  rw [hstring, Calendar.writeInstant_of_isOf h]
  by_cases hyear : 0 ≤ d.year ∧ d.year ≤ 9999
  · have hvalid : d.isValid = true := Calendar.Date.isValid_iff.mpr ⟨h.1, by omega, by omega⟩
    rw [if_pos hvalid, if_pos hyear, Option.map_some, Option.bind_some, coerce?_date_written,
      Calendar.readTimestamp_written hvalid h hyear.1 hyear.2, Option.map_some]
  · rw [if_neg hyear]
    split
    · rw [Option.map_some, Option.bind_some, coerce?_date_written,
        Calendar.readTimestamp_signed h.1 (by omega), Option.map_none]
    · rfl

/--
Coercion to text can be undone.  Integers and truth values come back.  An instant has
one date in UTC, and it has a text if the year of that date is supported; if the year
is one from 0 to 9999 the text converts back to the instant, and otherwise it does not
convert to an instant.
-/
theorem coerce?_string_back :
    (∀ i : Int64, ((Value.int i).coerce? .string).bind (·.coerce? .number) = some (.int i)) ∧
      (∀ b : Bool, ((Value.bool b).coerce? .string).bind (·.coerce? .boolean) = some (.bool b)) ∧
      ∀ ms : Int64, ∃ d : Calendar.Date, (∀ d' : Calendar.Date, d'.IsOf ms.toInt ↔ d' = d) ∧
        (((Value.timestamp ms).coerce? .string).isSome ↔ -262143 ≤ d.year ∧ d.year ≤ 262142) ∧
        ((Value.timestamp ms).coerce? .string).bind (·.coerce? .date) =
          if 0 ≤ d.year ∧ d.year ≤ 9999 then some (.timestamp ms) else none := by
  refine ⟨coerce?_int_back, coerce?_bool_back, fun ms => ?_⟩
  have hdate := Calendar.Date.isOf_ofDays ms.toInt
  refine ⟨_, fun d' => ⟨fun h => ?_, fun h => h ▸ hdate⟩, isSome_coerce?_timestamp hdate,
    coerce?_timestamp_back hdate⟩
  rw [← h.2, h.1.ofDays_toDays]

end Value

end KeyedQuery
