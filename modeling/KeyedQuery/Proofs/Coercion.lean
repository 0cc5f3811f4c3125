import KeyedQuery.Proofs.Where.Build

/-!
# What coercion leaves alone

A value that converts to a declared type is from then on in the representation of
that type, and a value in the representation of a type converts to itself.  Only
such a value can be compared with an operand of the type, so a record keeps every
attribute on which it satisfies a coerced condition.
-/

namespace KeyedQuery

namespace Value

/-! ## Representations -/

/-- Whether a value is in the representation of a declared type. -/
def isOf : ScalarType → Value → Bool
  | .string, .string _ => true
  | .number, .int _ => true
  | .number, .float _ => true
  | .date, .timestamp _ => true
  | .boolean, .bool _ => true
  | _, _ => false

variable {v w : Value} {type : ScalarType}

theorem isOf_of_toText? (h : v.toText? = some w) : w.isOf .string = true := by
  cases v with
  | timestamp ms =>
      obtain ⟨text, _, rfl⟩ := Option.map_eq_some_iff.mp h
      rfl
  | float x =>
      simp only [toText?] at h
      split at h <;> cases h
      rfl
  | string s => cases h; rfl
  | int i => cases h; rfl
  | bool b => cases h; rfl
  | _ => cases h

theorem isOf_of_readNumber {text : List Char} (h : readNumber text = some w) :
    w.isOf .number = true := by
  unfold readNumber at h
  split at h
  · cases h
    rfl
  · obtain ⟨x, _, rfl⟩ := Option.map_eq_some_iff.mp h
    rfl

theorem isOf_of_toNumber? (h : v.toNumber? = some w) : w.isOf .number = true := by
  cases v with
  | string s => exact isOf_of_readNumber h
  | int i => cases h; rfl
  | float x => cases h; rfl
  | timestamp ms => cases h; rfl
  | _ => cases h

theorem isOf_of_toInstant? (h : v.toInstant? = some w) : w.isOf .date = true := by
  cases v with
  | string s =>
      obtain ⟨ms, _, rfl⟩ := Option.map_eq_some_iff.mp h
      rfl
  | float x =>
      simp only [toInstant?] at h
      split at h <;> cases h
      rfl
  | timestamp ms => cases h; rfl
  | int ms => cases h; rfl
  | _ => cases h

theorem isOf_of_toBool? (h : v.toBool? = some w) : w.isOf .boolean = true := by
  cases v with
  | string s =>
      obtain ⟨b, _, rfl⟩ := Option.map_eq_some_iff.mp h
      rfl
  | int i =>
      simp only [toBool?] at h
      split at h
      · cases h
        rfl
      · split at h <;> cases h
        rfl
  | bool b => cases h; rfl
  | _ => cases h

/-- What converts to a declared type, unless it is null, gets into its representation. -/
theorem isOf_of_coerce?_of_not_null (hv : v.isNull = false) (h : v.coerce? type = some w) :
    w.isOf type = true := by
  unfold coerce? at h
  rw [hv] at h
  cases type with
  | string => exact isOf_of_toText? h
  | number => exact isOf_of_toNumber? h
  | date => exact isOf_of_toInstant? h
  | boolean => exact isOf_of_toBool? h

/-- What converts to a declared type becomes null or a value in its representation. -/
theorem isOf_of_coerce? (h : v.coerce? type = some w) : w = .null ∨ w.isOf type = true := by
  cases hv : v.isNull with
  | true =>
      unfold coerce? at h
      rw [hv] at h
      cases h
      exact .inl rfl
  | false => exact .inr (isOf_of_coerce?_of_not_null hv h)

theorem coerce?_of_isOf (h : v.isOf type = true) : v.coerce? type = some v := by
  cases type <;> cases v <;> first | rfl | cases h

theorem coerce?_of_coerce? (h : v.coerce? type = some w) : w.coerce? type = some w := by
  rcases isOf_of_coerce? h with rfl | hof
  · rfl
  · exact coerce?_of_isOf hof

/-! ## Comparisons -/

theorem compare?_null (h : v.isNull = false) : v.compare? .null = none := by
  cases v with
  | null => cases h
  | _ => rfl

/-- Only a value in the representation of a type has an order with one that is in it. -/
theorem isOf_of_compare? {o : Ordering} (h : v.compare? w = some o) (hw : w.isOf type = true) :
    v.isOf type = true := by
  -- Most variants of the operand are not in the representation of the type.
  cases type <;> cases w <;> cases hw <;> cases v <;> first | rfl | cases h

theorem isScalar_of_isOf (h : v.isOf type = true) : v.isScalar = true := by
  cases type <;> cases v <;> first | rfl | cases h

theorem not_same_of_isScalar (h : v.isScalar = false) (hw : w.isScalar = true) :
    v.same w = false := by
  cases v <;> cases h <;> cases w <;> cases hw <;> rfl

/-- Equality with a scalar operand is a comparison. -/
theorem compare?_of_looseEq (h : v.looseEq w = true) (hw : w.isScalar = true) :
    v.compare? w = some .eq := by
  unfold looseEq at h
  split at h
  · simpa using h
  · rename_i hscalar
    have hv : v.isScalar = false := by simpa [hw] using hscalar
    have hsame : v.same w = true := h
    rw [not_same_of_isScalar hv hw] at hsame
    cases hsame

end Value

/-- A condition on an attribute stands in a clause, by itself or as an equality of a group. -/
inductive WhereClause.Tests (w : WhereClause) (name : String) : Condition → Prop where
  | alone {c : Condition} (h : .on name c ∈ w.clauses) : Tests w name c
  | grouped {entries : List (String × Value)} {v : Value} (hgroup : .anyOf entries ∈ w.clauses)
      (h : (name, v) ∈ entries) : Tests w name (.equals v)

namespace KeySchema

variable {s : KeySchema} {name : String} {v w : Value} {r : Record}

/-! ## Records -/

theorem coerceValue_coerceValue (s : KeySchema) (name : String) (v : Value) :
    s.coerceValue name (s.coerceValue name v) = s.coerceValue name v := by
  unfold coerceValue
  cases s.typeOf? name with
  | none => rfl
  | some type =>
      cases hconverted : v.coerce? type with
      | none => simp [hconverted]
      | some w => simp [hconverted, Value.coerce?_of_coerce? hconverted]

theorem get?_coerceRecord (s : KeySchema) (r : Record) (name : String) :
    (s.coerceRecord r).get? name = (r.get? name).map (s.coerceValue name) :=
  Dict.get?_map r s.coerceValue name

/-- A record that has been coerced stays as it is. -/
theorem coerceRecord_coerceRecord (s : KeySchema) (r : Record) :
    s.coerceRecord (s.coerceRecord r) = s.coerceRecord r := by
  apply Dict.ext
  simp [coerceRecord, Dict.map, coerceValue_coerceValue]

/-! ## Satisfied conditions -/

/-- An operand for an attribute: null or in the representation of the declared type, if any. -/
def Coerced (s : KeySchema) (name : String) (v : Value) : Prop :=
  ∀ type, s.typeOf? name = some type → v = .null ∨ v.isOf type = true

theorem coerced_of_coerceOperand (h : s.coerceOperand name v = .ok w) : s.Coerced name w := by
  intro type htype
  simp only [coerceOperand, htype, KeyedQuery.coerceOperand] at h
  split at h
  · rename_i converted hconverted
    cases h
    exact Value.isOf_of_coerce? hconverted
  · cases h

theorem coerceValue_of_isOf (h : ∀ type, s.typeOf? name = some type → v.isOf type = true) :
    s.coerceValue name v = v := by
  unfold coerceValue
  cases htype : s.typeOf? name with
  | none => rfl
  | some type => simp [Value.coerce?_of_isOf (h type htype)]

theorem coerceValue_of_compare? (hv : v.isNull = false) (hw : s.Coerced name w) {o : Ordering}
    (h : v.compare? w = some o) : s.coerceValue name v = v := by
  refine coerceValue_of_isOf fun type htype => ?_
  rcases hw type htype with rfl | hof
  · rw [Value.compare?_null hv] at h
    cases h
  · exact Value.isOf_of_compare? h hof

theorem coerceValue_of_looseEq (hv : v.isNull = false) (hw : s.Coerced name w)
    (h : v.looseEq w = true) : s.coerceValue name v = v := by
  cases htype : s.typeOf? name with
  | none => simp [coerceValue, htype]
  | some type =>
      have hscalar : w.isScalar = true := by
        rcases hw type htype with rfl | hof
        · rfl
        · exact Value.isScalar_of_isOf hof
      exact coerceValue_of_compare? hv hw (Value.compare?_of_looseEq h hscalar)

theorem coerceValue_of_test (hv : v.isNull = false) (hw : s.Coerced name w) {op : Comparison}
    (h : op.test v w = true) : s.coerceValue name v = v := by
  unfold Comparison.test at h
  split at h
  · rename_i o horder
    exact coerceValue_of_compare? hv hw horder
  · cases h

/-- A value that passes a condition with coerced operands converts to itself. -/
theorem coerceValue_of_admits {c : Condition} (hv : v.isNull = false)
    (hc : ∀ w ∈ c.operands, s.Coerced name w) (h : c.admits v = true) :
    s.coerceValue name v = v := by
  cases c with
  | equals w => exact coerceValue_of_looseEq hv (hc w (by simp [Condition.operands])) h
  | compare op w => exact coerceValue_of_test hv (hc w (by simp [Condition.operands])) h
  | between low high =>
      obtain ⟨hlow, _⟩ := (Bool.and_eq_true _ _).mp h
      exact coerceValue_of_test hv (hc low (by simp [Condition.operands])) hlow
  | isIn values =>
      obtain ⟨w, hw, heq⟩ := List.any_eq_true.mp h
      exact coerceValue_of_looseEq hv (hc w hw) heq

theorem get?_coerceRecord_of_holds {c : Condition} (hc : ∀ w ∈ c.operands, s.Coerced name w)
    (h : c.holds r name = true) : (s.coerceRecord r).get? name = r.get? name := by
  rw [get?_coerceRecord]
  unfold Condition.holds at h
  split at h
  · rename_i v hpresent
    obtain ⟨hget, hnull⟩ := Option.filter_eq_some_iff.mp hpresent
    rw [hget, Option.map_some, coerceValue_of_admits (by simpa using hnull) hc h]
  · cases h

theorem holds_coerceRecord {c : Condition} (hc : ∀ w ∈ c.operands, s.Coerced name w)
    (h : c.holds r name = true) : c.holds (s.coerceRecord r) name = true := by
  unfold Condition.holds Record.present? at h ⊢
  rw [get?_coerceRecord_of_holds hc h]
  exact h

/-! ## Coerced clauses -/

/-- An entry of a where clause whose operands are coerced. -/
def CoercedClause (s : KeySchema) : Clause → Prop
  | .on name c => ∀ v ∈ c.operands, s.Coerced name v
  | .anyOf entries => ∀ entry ∈ entries, s.Coerced entry.1 entry.2

theorem coercedClause_of_coerces {clause converted : Clause} (h : s.Coerces clause converted) :
    s.CoercedClause converted := by
  cases h with
  | on h =>
      intro v hv
      obtain ⟨_, _, hoperand⟩ := exists_of_mem_forall₂ h.operands.flip hv
      exact coerced_of_coerceOperand hoperand
  | anyOf h =>
      intro entry hentry
      obtain ⟨_, _, hname, hoperand⟩ := exists_of_mem_forall₂ h.flip hentry
      rw [hname]
      exact coerced_of_coerceOperand hoperand

theorem coercedClause_of_mem {w coerced : WhereClause} (h : s.coerceWhere w = .ok coerced)
    {clause : Clause} (hclause : clause ∈ coerced.clauses) : s.CoercedClause clause := by
  obtain ⟨entries, hentries, rfl⟩ := coerceWhere_eq_ok_iff.mp h
  obtain ⟨_, _, hcoerces⟩ := exists_of_mem_forall₂ hentries.flip (WhereClause.mem_of_mem_build hclause)
  exact coercedClause_of_coerces hcoerces

theorem clause_holds_coerceRecord {clause : Clause} (hclause : s.CoercedClause clause)
    (h : clause.holds r = true) : clause.holds (s.coerceRecord r) = true := by
  cases clause with
  | on name c => exact holds_coerceRecord hclause h
  | anyOf entries =>
      obtain ⟨entry, hentry, hequals⟩ := List.any_eq_true.mp h
      refine List.any_eq_true.mpr ⟨entry, hentry, holds_coerceRecord ?_ hequals⟩
      intro w hw
      rw [List.mem_singleton.mp hw]
      exact hclause entry hentry

/-- A condition that is tested with coerced operands. -/
theorem coerced_of_tests {w coerced : WhereClause} (h : s.coerceWhere w = .ok coerced)
    {c : Condition} (htests : coerced.Tests name c) : ∀ v ∈ c.operands, s.Coerced name v := by
  cases htests with
  | alone hclause => exact coercedClause_of_mem h hclause
  | grouped hclause hentry =>
      intro v hv
      rw [List.mem_singleton.mp hv]
      exact coercedClause_of_mem h hclause _ hentry

/-- A record that satisfies a coerced clause satisfies it in coerced form too. -/
theorem where_holds_coerceRecord {w coerced : WhereClause} (h : s.coerceWhere w = .ok coerced)
    (hholds : coerced.holds r = true) : coerced.holds (s.coerceRecord r) = true := by
  refine List.all_eq_true.mpr fun clause hclause => ?_
  exact clause_holds_coerceRecord (coercedClause_of_mem h hclause)
    (List.all_eq_true.mp hholds clause hclause)

end KeySchema

end KeyedQuery
