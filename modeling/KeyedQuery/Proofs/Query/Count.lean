import Mathlib.Algebra.Order.Field.Power
import Mathlib.Data.Rat.Floor
import KeyedQuery.Query.Basic
import KeyedQuery.Proofs.Except

/-!
# Counts

A count is a number of a document that stands for a whole number of 64 bits.  What a
number stands for is a rational number, also where it is a floating-point one, and a
count is that number exactly.  One number is let through that no count can hold,
`2 ^ 64`; it becomes the greatest count.
-/

namespace KeyedQuery

namespace Binary64

/-- The absolute value of a finite number. -/
def absRat (x : Binary64) : ℚ :=
  x.significand * 2 ^ x.exponent

/-- The number that a finite number stands for. -/
def toRat (x : Binary64) : ℚ :=
  if x.negative then -x.absRat else x.absRat

variable {x : Binary64}

theorem absRat_nonneg (x : Binary64) : 0 ≤ x.absRat := by
  unfold absRat
  positivity

theorem significand_eq_zero_iff : x.significand = 0 ↔ x.magnitude = 0 := by
  unfold significand exponentField
  dsimp only
  split <;> omega

theorem absRat_eq_zero_iff : x.absRat = 0 ↔ x.magnitude = 0 := by
  have hpower : (2 : ℚ) ^ x.exponent ≠ 0 := zpow_ne_zero _ (by norm_num)
  rw [absRat, mul_eq_zero, or_iff_left hpower, Nat.cast_eq_zero, significand_eq_zero_iff]

theorem toRat_nonneg_iff : 0 ≤ x.toRat ↔ x.negative = false ∨ x.magnitude = 0 := by
  have hnonneg := absRat_nonneg x
  unfold toRat
  cases x.negative with
  | false => simpa using hnonneg
  | true =>
      rw [← absRat_eq_zero_iff]
      simp only [if_true, Left.nonneg_neg_iff, Bool.true_eq_false, false_or]
      exact ⟨fun h => le_antisymm h hnonneg, fun h => h.le⟩

theorem two_zpow_of_nonneg {e : ℤ} (h : 0 ≤ e) : (2 : ℚ) ^ e = ((2 ^ e.toNat : ℕ) : ℚ) := by
  lift e to ℕ using h
  simp

theorem two_zpow_of_neg {e : ℤ} (h : e < 0) : (2 : ℚ) ^ e = ((2 ^ (-e).toNat : ℕ) : ℚ)⁻¹ := by
  rw [← two_zpow_of_nonneg (by omega), zpow_neg, inv_inv]

theorem mod_eq_zero_and_div_eq_iff {m d n : ℕ} (hd : 0 < d) :
    m % d = 0 ∧ m / d = n ↔ m = n * d := by
  constructor
  · rintro ⟨hmod, hdiv⟩
    rw [← Nat.div_add_mod m d, hmod, hdiv, Nat.add_zero, Nat.mul_comm]
  · rintro rfl
    exact ⟨Nat.mul_mod_left n d, Nat.mul_div_cancel n hd⟩

/-- A whole number is its own floor: its significand is a multiple of the scale, if that divides. -/
theorem absRat_eq_natCast_iff {n : ℕ} :
    x.absRat = n ↔ x.isWhole = true ∧ x.floorMagnitude = n := by
  unfold absRat isWhole floorMagnitude
  by_cases hexponent : 0 ≤ x.exponent
  · rw [two_zpow_of_nonneg hexponent, ← Nat.cast_mul, Nat.cast_inj]
    simp [hexponent]
  · have hscale : 0 < 2 ^ (-x.exponent).toNat := Nat.two_pow_pos _
    have hcast : ((2 ^ (-x.exponent).toNat : ℕ) : ℚ) ≠ 0 := Nat.cast_ne_zero.mpr hscale.ne'
    rw [two_zpow_of_neg (Int.not_le.mp hexponent), ← div_eq_mul_inv, div_eq_iff hcast,
      ← Nat.cast_mul, Nat.cast_inj, ← mod_eq_zero_and_div_eq_iff hscale]
    simp [hexponent]

theorem toRat_eq_absRat (h : x.negative = false ∨ x.magnitude = 0) : x.toRat = x.absRat := by
  unfold toRat
  rcases h with hsign | hzero
  · simp [hsign]
  · simp [absRat_eq_zero_iff.mpr hzero]

/-- The natural number that a number stands for, if there is one. -/
theorem toRat_eq_natCast_iff {n : ℕ} :
    x.toRat = n ↔
      x.isWhole = true ∧ (x.negative = false ∨ x.magnitude = 0) ∧ x.floorMagnitude = n := by
  constructor
  · intro h
    have hsign := toRat_nonneg_iff.mp (h ▸ Nat.cast_nonneg n)
    rw [toRat_eq_absRat hsign, absRat_eq_natCast_iff] at h
    exact ⟨h.1, hsign, h.2⟩
  · rintro ⟨hwhole, hsign, hfloor⟩
    rw [toRat_eq_absRat hsign, absRat_eq_natCast_iff]
    exact ⟨hwhole, hfloor⟩

end Binary64

/-- The number that a number of a document stands for. -/
def JsonNumber.value : JsonNumber → ℚ
  | .integer i _ => i
  | .float x _ => x.toRat

namespace Query

variable {n : JsonNumber} {k : ℕ}

theorem countOf?_float {x : Binary64} {finite : x.isFinite = true} :
    countOf? (.float x finite) = some k ↔
      ∃ m : ℕ, x.toRat = m ∧ m ≤ 2 ^ 64 ∧ k = min m (2 ^ 64 - 1) := by
  simp only [countOf?, Option.ite_none_right_eq_some, Option.some.injEq, Bool.and_eq_true,
    Bool.or_eq_true, Bool.not_eq_true', beq_iff_eq, decide_eq_true_eq]
  constructor
  · rintro ⟨⟨⟨hwhole, hsign⟩, hbound⟩, hmin⟩
    exact ⟨_, Binary64.toRat_eq_natCast_iff.mpr ⟨hwhole, hsign, rfl⟩, hbound, hmin.symm⟩
  · rintro ⟨m, hm, hbound, hmin⟩
    obtain ⟨hwhole, hsign, rfl⟩ := Binary64.toRat_eq_natCast_iff.mp hm
    exact ⟨⟨⟨hwhole, hsign⟩, hbound⟩, hmin.symm⟩

theorem countOf?_integer {i : ℤ} {bounds : -2 ^ 63 ≤ i ∧ i < 2 ^ 64} :
    countOf? (.integer i bounds) = some k ↔ i = k := by
  simp only [countOf?, Option.ite_none_right_eq_some, Option.some.injEq]
  omega

/-- A count is the number itself, but for one number that is too large by one. -/
theorem countOf?_eq_some_iff :
    countOf? n = some k ↔ (n.value = k ∧ k < 2 ^ 64) ∨ (n.value = 2 ^ 64 ∧ k = 2 ^ 64 - 1) := by
  cases n with
  | integer i bounds =>
      rw [countOf?_integer, JsonNumber.value]
      constructor
      · rintro rfl
        exact .inl ⟨rfl, by omega⟩
      · rintro (⟨hi, _⟩ | ⟨hi, _⟩)
        · exact_mod_cast hi
        · have hbeyond : i = 2 ^ 64 := by exact_mod_cast hi
          omega
  | float x finite =>
      rw [countOf?_float, JsonNumber.value]
      constructor
      · rintro ⟨m, hm, hbound, rfl⟩
        by_cases hless : m < 2 ^ 64
        · rw [Nat.min_eq_left (by omega)]
          exact .inl ⟨hm, hless⟩
        · have hlast : m = 2 ^ 64 := by omega
          subst hlast
          exact .inr ⟨by exact_mod_cast hm, rfl⟩
      · rintro (⟨hk, hless⟩ | ⟨hlast, rfl⟩)
        · exact ⟨k, hk, by omega, by omega⟩
        · exact ⟨2 ^ 64, by exact_mod_cast hlast, le_rfl, rfl⟩

theorem exists_eq_natCast_iff {q : ℚ} : (∃ m : ℕ, q = m) ↔ 0 ≤ q ∧ Int.fract q = 0 := by
  constructor
  · rintro ⟨m, rfl⟩
    exact ⟨Nat.cast_nonneg m, Int.fract_natCast m⟩
  · rintro ⟨hnonneg, hfract⟩
    obtain ⟨i, rfl⟩ := Int.fract_eq_zero_iff.mp hfract
    lift i to ℕ using Int.cast_nonneg_iff.mp hnonneg
    exact ⟨i, Int.cast_natCast i⟩

theorem exists_countOf?_iff : (∃ k, countOf? n = some k) ↔ ∃ m : ℕ, n.value = m ∧ m ≤ 2 ^ 64 := by
  simp only [countOf?_eq_some_iff]
  constructor
  · rintro ⟨k, ⟨hk, hless⟩ | ⟨hlast, _⟩⟩
    · exact ⟨k, hk, hless.le⟩
    · exact ⟨2 ^ 64, by exact_mod_cast hlast, le_rfl⟩
  · rintro ⟨m, hm, hbound⟩
    rcases Nat.lt_or_eq_of_le hbound with hless | rfl
    · exact ⟨m, .inl ⟨hm, hless⟩⟩
    · exact ⟨_, .inr ⟨by exact_mod_cast hm, rfl⟩⟩

/-- A number is no count when it is negative, has a fractional part or is too large. -/
theorem countOf?_eq_none_iff :
    countOf? n = none ↔ n.value < 0 ∨ Int.fract n.value ≠ 0 ∨ 2 ^ 64 < n.value := by
  rw [← Option.not_isSome_iff_eq_none, Option.isSome_iff_exists, exists_countOf?_iff, not_iff_comm,
    not_or, not_or, not_lt, not_not, not_lt, ← and_assoc, ← exists_eq_natCast_iff]
  constructor
  · rintro ⟨⟨m, hm⟩, hbound⟩
    exact ⟨m, hm, by exact_mod_cast hm ▸ hbound⟩
  · rintro ⟨m, hm, hbound⟩
    exact ⟨⟨m, hm⟩, by rw [hm]; exact_mod_cast hbound⟩

/-! ## Documents -/

/-- The count that a document gives, where `null` gives none. -/
inductive Gives : Json → Option ℕ → Prop where
  | nothing : Gives .null none
  | count {n : JsonNumber} {k : ℕ} (hvalue : n.value = k) (hword : k < 2 ^ 64) :
      Gives (.number n) (some k)
  /-- The one number that is let through without being a count. -/
  | beyond {n : JsonNumber} (hvalue : n.value = 2 ^ 64) : Gives (.number n) (some (2 ^ 64 - 1))

/-- A document that is neither a count nor `null`. -/
def GivesNoCount : Json → Prop
  | .null => False
  | .number n => n.value < 0 ∨ Int.fract n.value ≠ 0 ∨ 2 ^ 64 < n.value
  | _ => True

/-- The document of how many records to leave out: `offset`, or else `skip`. -/
def offsetField (j : Json) : Json :=
  match j.field "offset" with
  | .null => j.field "skip"
  | offset => offset

section Reading

variable {key : String} {j : Json} {c : Option ℕ} {e : QueryError}

theorem gives_number_iff : Gives (.number n) c ↔ ∃ k, countOf? n = some k ∧ c = some k := by
  constructor
  · rintro (_ | ⟨hvalue, hword⟩ | ⟨hvalue⟩)
    · exact ⟨_, countOf?_eq_some_iff.mpr (.inl ⟨hvalue, hword⟩), rfl⟩
    · exact ⟨_, countOf?_eq_some_iff.mpr (.inr ⟨hvalue, rfl⟩), rfl⟩
  · rintro ⟨k, hcount, rfl⟩
    rcases countOf?_eq_some_iff.mp hcount with ⟨hvalue, hword⟩ | ⟨hvalue, rfl⟩
    · exact .count hvalue hword
    · exact .beyond hvalue

theorem readCount_number :
    readCount key (.number n) =
      match countOf? n with
      | some k => .ok (some k)
      | none => .error (.count key (.number n)) :=
  rfl

theorem readCount_eq_ok_iff : readCount key j = .ok c ↔ Gives j c := by
  cases j with
  | null =>
      constructor
      · intro h
        cases h
        exact .nothing
      · rintro ⟨⟩
        rfl
  | number n =>
      rw [gives_number_iff, readCount_number]
      cases countOf? n with
      | none => simp
      | some k => simp [eq_comm]
  | _ =>
      constructor
      · intro h
        cases h
      · intro h
        cases h

theorem readCount_eq_error_iff :
    readCount key j = .error e ↔ GivesNoCount j ∧ e = .count key j := by
  cases j with
  | null =>
      constructor
      · intro h
        cases h
      · rintro ⟨hnone, _⟩
        exact hnone.elim
  | number n =>
      rw [GivesNoCount, ← countOf?_eq_none_iff, readCount_number]
      cases countOf? n with
      | none => simp [eq_comm]
      | some k => simp
  | _ =>
      constructor
      · intro h
        cases h
        exact ⟨trivial, rfl⟩
      · rintro ⟨_, rfl⟩
        rfl

/-- Without `offset`, `skip` is read; a fault is put down to the one that was read. -/
theorem exists_readOffset_eq (j : Json) :
    ∃ key, readOffset j = readCount key (offsetField j) := by
  unfold readOffset offsetField
  cases j.field "offset" with
  | null => exact ⟨"skip", rfl⟩
  | number n =>
      refine ⟨"offset", ?_⟩
      dsimp only
      rw [readCount_number]
      cases countOf? n <;> rfl
  | _ => exact ⟨"offset", rfl⟩

theorem readOffset_eq_ok_iff : readOffset j = .ok c ↔ Gives (offsetField j) c := by
  obtain ⟨key, hkey⟩ := exists_readOffset_eq j
  rw [hkey, readCount_eq_ok_iff]

theorem exists_gives_iff : (∃ c, Gives j c) ↔ ¬ GivesNoCount j := by
  constructor
  · rintro ⟨c, hc⟩ hnone
    have hread : readCount "" j = .error (.count "" j) := readCount_eq_error_iff.mpr ⟨hnone, rfl⟩
    rw [readCount_eq_ok_iff.mpr hc] at hread
    cases hread
  · intro hcount
    cases hread : readCount "" j with
    | error e => exact absurd (readCount_eq_error_iff.mp hread).1 hcount
    | ok c => exact ⟨c, readCount_eq_ok_iff.mp hread⟩

end Reading

section Objects

variable {fields : List (String × Json)} {q : Query} {e : QueryError}

theorem read_object_eq_ok_iff :
    read (.object fields) = .ok q ↔
      WhereClause.read ((Json.object fields).field "where") = .ok q.conditions ∧
      OrderSpec.readList ((Json.object fields).field "order") = .ok q.order ∧
      Gives (offsetField (.object fields)) q.offset ∧
      Gives ((Json.object fields).field "limit") q.limit ∧
      q.included = if ((Json.object fields).field "include").isNull then none
        else some ((Json.object fields).field "include") := by
  simp only [read, bind_eq_ok_iff, readOffset_eq_ok_iff, readCount_eq_ok_iff, Except.ok.injEq]
  constructor
  · rintro ⟨_, hwhere, _, horder, _, hoffset, _, hlimit, rfl⟩
    exact ⟨hwhere, horder, hoffset, hlimit, rfl⟩
  · rintro ⟨hwhere, horder, hoffset, hlimit, hincluded⟩
    exact ⟨_, hwhere, _, horder, _, hoffset, _, hlimit, by rw [← hincluded]⟩

theorem exists_read_object_iff :
    (∃ q, read (.object fields) = .ok q) ↔
      (∃ w, WhereClause.read ((Json.object fields).field "where") = .ok w) ∧
      (∃ order, OrderSpec.readList ((Json.object fields).field "order") = .ok order) ∧
      ¬ GivesNoCount (offsetField (.object fields)) ∧
      ¬ GivesNoCount ((Json.object fields).field "limit") := by
  simp only [read_object_eq_ok_iff, ← exists_gives_iff]
  constructor
  · rintro ⟨q, hwhere, horder, hoffset, hlimit, _⟩
    exact ⟨⟨_, hwhere⟩, ⟨_, horder⟩, ⟨_, hoffset⟩, ⟨_, hlimit⟩⟩
  · rintro ⟨⟨w, hwhere⟩, ⟨order, horder⟩, ⟨offset, hoffset⟩, ⟨limit, hlimit⟩⟩
    exact ⟨⟨w, order, offset, limit, _⟩, hwhere, horder, hoffset, hlimit, rfl⟩

/-- The parts of a query that can be at fault. -/
theorem read_object_error_cases (h : read (.object fields) = .error e) :
    WhereClause.read ((Json.object fields).field "where") = .error e ∨
      OrderSpec.readList ((Json.object fields).field "order") = .error e ∨
      e.kind = .pagination := by
  rcases bind_eq_error_iff.mp h with hwhere | ⟨_, _, h⟩
  · exact .inl hwhere
  rcases bind_eq_error_iff.mp h with horder | ⟨_, _, h⟩
  · exact .inr (.inl horder)
  rcases bind_eq_error_iff.mp h with hoffset | ⟨_, _, h⟩
  · obtain ⟨key, hkey⟩ := exists_readOffset_eq (.object fields)
    rw [hkey] at hoffset
    obtain ⟨_, rfl⟩ := readCount_eq_error_iff.mp hoffset
    exact .inr (.inr rfl)
  · obtain ⟨_, rfl⟩ := readCount_eq_error_iff.mp (bind_ok_eq_error_iff.mp h)
    exact .inr (.inr rfl)

theorem exists_error_of_givesNoCount
    (h : GivesNoCount (offsetField (.object fields)) ∨
      GivesNoCount ((Json.object fields).field "limit")) :
    ∃ e, read (.object fields) = .error e := by
  cases hread : read (.object fields) with
  | error e => exact ⟨e, rfl⟩
  | ok q =>
      obtain ⟨_, _, hoffset, hlimit⟩ := exists_read_object_iff.mp ⟨q, hread⟩
      exact (h.elim hoffset hlimit).elim

end Objects

/--
A query that is read has the counts that its document gives.  What is no count is
refused, as a fault of the pagination unless the conditions or the order are at fault.
A document with readable conditions, a readable order and no such count is a query.
-/
theorem read_counts (j : Json) :
    (∀ q, read j = .ok q → Gives (offsetField j) q.offset ∧ Gives (j.field "limit") q.limit) ∧
      (GivesNoCount (offsetField j) ∨ GivesNoCount (j.field "limit") →
        ∃ e, read j = .error e ∧
          (WhereClause.read (j.field "where") = .error e ∨
            OrderSpec.readList (j.field "order") = .error e ∨ e.kind = .pagination)) ∧
      ((∃ q, read j = .ok q) ↔
        (j.isNull = true ∨ ∃ fields, j = .object fields) ∧
          (∃ w, WhereClause.read (j.field "where") = .ok w) ∧
          (∃ order, OrderSpec.readList (j.field "order") = .ok order) ∧
          ¬ GivesNoCount (offsetField j) ∧ ¬ GivesNoCount (j.field "limit")) := by
  cases j with
  | null =>
      refine ⟨fun q h => ?_, fun h => (h.elim id id).elim, iff_of_true ⟨all, rfl⟩ ?_⟩
      · cases h
        exact ⟨.nothing, .nothing⟩
      · exact ⟨.inl rfl, ⟨_, rfl⟩, ⟨_, rfl⟩, id, id⟩
  | object fields =>
      refine ⟨fun q h => ?_, fun h => ?_, ?_⟩
      · obtain ⟨_, _, hoffset, hlimit, _⟩ := read_object_eq_ok_iff.mp h
        exact ⟨hoffset, hlimit⟩
      · obtain ⟨e, he⟩ := exists_error_of_givesNoCount h
        exact ⟨e, he, read_object_error_cases he⟩
      · rw [exists_read_object_iff]
        exact (and_iff_right (.inr ⟨fields, rfl⟩)).symm
  | _ =>
      -- A document that is no object has no fields.
      refine ⟨fun q h => ?_, fun h => (h.elim id id).elim, iff_of_false ?_ ?_⟩
      · cases h
      · rintro ⟨q, h⟩
        cases h
      · rintro ⟨hnone | ⟨fields, hnone⟩, _⟩
        · cases hnone
        · cases hnone

/-- `2 ^ 64` is let through, and it is read as the count before it. -/
theorem read_limit_beyond :
    (JsonNumber.float ⟨0x43F0000000000000⟩ rfl).value = 2 ^ 64 ∧
      (read (.object [("limit", .number (.float ⟨0x43F0000000000000⟩ rfl))])).map (·.limit) =
        .ok (some (2 ^ 64 - 1)) := by
  have hpositive : (Binary64.mk 0x43F0000000000000).negative = false := by decide +kernel
  have hsignificand : (Binary64.mk 0x43F0000000000000).significand = 2 ^ 52 := by decide +kernel
  have hexponent : (Binary64.mk 0x43F0000000000000).exponent = 12 := by decide +kernel
  constructor
  · change (Binary64.mk 0x43F0000000000000).toRat = 2 ^ 64
    rw [Binary64.toRat, Binary64.absRat, hpositive, hsignificand, hexponent]
    norm_num
  · rfl

end Query

end KeyedQuery
