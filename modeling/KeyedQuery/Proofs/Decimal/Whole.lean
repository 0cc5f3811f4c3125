import Mathlib.Data.Nat.Digits.Defs
import KeyedQuery.Decimal.Whole

/-!
# Written numbers read back

The digits of a number are digits and stand for the number, with or without leading
zeros; and a width that has room for them is filled exactly.
-/

namespace KeyedQuery

namespace Decimal

theorem ofDigits_eq (digits : List Char) : ofDigits digits = Nat.ofDigitChars 10 digits 0 :=
  rfl

@[simp] theorem ofDigits_digits (n : Nat) : ofDigits (digits n) = n :=
  Nat.ofDigitChars_ten_toDigits

theorem isDigit_of_mem_digits {n : Nat} {c : Char} (h : c ∈ digits n) : c.isDigit = true :=
  Nat.isDigit_of_mem_toDigits (by decide) (by decide) h

theorem digits_ne_nil (n : Nat) : digits n ≠ [] :=
  Nat.toDigits_ne_nil

/-! ## Leading zeros -/

@[simp] theorem ofDigits_padded (width n : Nat) : ofDigits (padded width n) = n := by
  rw [ofDigits_eq, padded, Nat.ofDigitChars_append, Nat.ofDigitChars_replicate_zero,
    Nat.mul_zero, ← ofDigits_eq, ofDigits_digits]

theorem isDigit_of_mem_padded {width n : Nat} {c : Char} (h : c ∈ padded width n) :
    c.isDigit = true := by
  rcases List.mem_append.mp h with hzero | hdigit
  · rw [List.eq_of_mem_replicate hzero]
    rfl
  · exact isDigit_of_mem_digits hdigit

theorem padded_ne_nil (width n : Nat) : padded width n ≠ [] := by
  simp [padded, digits_ne_nil]

/-- A number that fits is written in exactly the width. -/
theorem length_padded {width n : Nat} (hwidth : 0 < width) (h : n < 10 ^ width) :
    (padded width n).length = width := by
  have hfits : (digits n).length ≤ width :=
    (Nat.length_toDigits_le_iff (by decide) hwidth).mpr h
  simp only [padded, List.length_append, List.length_replicate]
  omega

/-! ## Integers -/

theorem readDigits_digits (n : Nat) : readDigits (digits n) = some n := by
  have hall : (digits n).all Char.isDigit = true :=
    List.all_eq_true.mpr fun c hc => isDigit_of_mem_digits hc
  simp [readDigits, hall, digits_ne_nil]

/-- A text that starts with a digit has no sign. -/
theorem splitSign_of_isDigit {c : Char} {rest : List Char} (h : c.isDigit = true) :
    splitSign (c :: rest) = (false, c :: rest) := by
  unfold splitSign
  split
  · rename_i heq
    cases heq
    cases h
  · rename_i heq
    cases heq
    cases h
  · rfl

theorem readInt_intDigits (i : Int) : readInt (intDigits i) = some i := by
  unfold intDigits
  split
  · rename_i hneg
    have hvalue : -(i.natAbs : Int) = i := by omega
    simp only [readInt, splitSign, readDigits_digits, Option.bind_eq_bind, Option.bind_some,
      Option.pure_def, Option.map_some, if_true, hvalue]
  · rename_i hnonneg
    have hvalue : (i.natAbs : Int) = i := by omega
    obtain ⟨c, rest, hdigits⟩ := List.exists_cons_of_ne_nil (digits_ne_nil i.natAbs)
    have hc : c.isDigit = true := isDigit_of_mem_digits (by rw [hdigits]; exact List.mem_cons_self)
    have hread := readDigits_digits i.natAbs
    rw [hdigits] at hread ⊢
    simp [readInt, splitSign_of_isDigit hc, hread, hvalue]

/-- The text of a 64-bit integer is read as that integer. -/
theorem readInt64_intDigits (i : Int64) : readInt64 (intDigits i.toInt) = some i := by
  rw [readInt64, readInt_intDigits, Option.bind_some, toInt64?_toInt]

/-- A text with anything but digits behind its sign is no integer. -/
theorem readInt64_eq_none {text : List Char} {c : Char} (hc : c ∈ (splitSign text).2)
    (h : c.isDigit = false) : readInt64 text = none := by
  have hnot : ¬ (splitSign text).2.all Char.isDigit = true := by
    intro hall
    rw [List.all_eq_true.mp hall c hc] at h
    cases h
  simp [readInt64, readInt, readDigits, hnot]

end Decimal

end KeyedQuery
