import KeyedQuery.Where.Reader
import KeyedQuery.Proofs.Json.Merged
import KeyedQuery.Proofs.Where.Build

/-!
# Documents that write where clauses

`Writes` relates documents to what they write: a condition, an entry of a clause,
a clause.  A document is read exactly as what it writes, entry by entry in the
order of its fields.  A document that writes no clause is refused for the first
field that writes no entry, and the part of the query at fault is that field's.
-/

namespace KeyedQuery

def Comparison.operator : Comparison → String
  | .lt => "lt"
  | .le => "lte"
  | .gt => "gt"
  | .ge => "gte"

namespace Condition

/-- The documents that write a condition. -/
inductive Writes : Json → Condition → Prop where
  | scalar {j : Json} (h : j.isScalar = true) : Writes j (.equals (Value.ofJson j))
  | list {items : List Json} (hne : items ≠ []) (h : ∀ j ∈ items, j.isScalar = true) :
      Writes (.array items) (.isIn (items.map Value.ofJson))
  | equals {operator : String} {operand : Json} (hop : isKeyword "=" operator = true)
      (h : operand.isScalar = true) :
      Writes (.object [(operator, operand)]) (.equals (Value.ofJson operand))
  | compare {operator : String} {operand : Json} (op : Comparison)
      (hop : isKeyword op.operator operator = true) (h : operand.isScalar = true) :
      Writes (.object [(operator, operand)]) (.compare op (Value.ofJson operand))
  | between {operator : String} {low high : Json} (hop : isKeyword "between" operator = true)
      (hlow : low.isScalar = true) (hhigh : high.isScalar = true) :
      Writes (.object [(operator, .array [low, high])])
        (.between (Value.ofJson low) (Value.ofJson high))
  | isIn {operator : String} {items : List Json} (hop : isKeyword "inq" operator = true)
      (hne : items ≠ []) (h : ∀ j ∈ items, j.isScalar = true) :
      Writes (.object [(operator, .array items)]) (.isIn (items.map Value.ofJson))

/-- Whether a word is one of the seven operators, in any letter case. -/
def isOperator (operator : String) : Bool :=
  ["=", "lt", "lte", "gt", "gte", "between", "inq"].any fun word => isKeyword word operator

/-- The part of the query that is at fault in a document that writes no condition. -/
def faultKind : Json → QueryError.Kind
  | .object [(operator, _)] => if isOperator operator then .filter else .operator
  | _ => .filter

end Condition

namespace Clause

/-- The objects of one field that write an equality of a group. -/
def WritesEquality (j : Json) (entry : String × Value) : Prop :=
  ∃ operand, j = .object [(entry.1, operand)] ∧ operand.isScalar = true ∧
    entry.2 = Value.ofJson operand

/-- The fields that write an entry. -/
inductive Writes : String × Json → Clause → Prop where
  | on {name : String} {j : Json} {c : Condition} (hor : isKeyword "or" name = false)
      (hand : isKeyword "and" name = false) (h : Condition.Writes j c) :
      Writes (name, j) (.on name c)
  | anyOf {key : String} {items : List Json} {entries : List (String × Value)}
      (hor : isKeyword "or" key = true) (hne : items ≠ [])
      (h : List.Forall₂ WritesEquality items entries) :
      Writes (key, .array items) (.anyOf entries)

/-- The part of the query that is at fault in a field that writes no entry. -/
def faultKind (field : String × Json) : QueryError.Kind :=
  if isKeyword "and" field.1 then
    .combinator
  else if isKeyword "or" field.1 then
    .filter
  else
    Condition.faultKind field.2

/-- Every operand is a scalar, and there is at least one. -/
def Plain : Clause → Prop
  | .on _ c => c.operands ≠ [] ∧ ∀ v ∈ c.operands, v.isScalar = true
  | .anyOf entries => entries ≠ [] ∧ ∀ entry ∈ entries, entry.2.isScalar = true

end Clause

namespace WhereClause

/-- The documents that write a clause. -/
inductive Writes : Json → WhereClause → Prop where
  | null : Writes .null empty
  | object {fields : List (String × Json)} {clauses : List Clause}
      (h : List.Forall₂ Clause.Writes fields clauses) : Writes (.object fields) ⟨clauses⟩

/-- The documents that write no clause, with the part of the query that is at fault. -/
inductive Faulty : Json → QueryError.Kind → Prop where
  | shape {j : Json} (hnull : j ≠ .null) (hobject : ∀ fields, j ≠ .object fields) :
      Faulty j .filter
  | field {before after : List (String × Json)} {field : String × Json}
      (hbefore : ∀ earlier ∈ before, ∃ clause, Clause.Writes earlier clause)
      (hfield : ∀ clause, ¬ Clause.Writes field clause) :
      Faulty (.object (before ++ field :: after)) (Clause.faultKind field)

end WhereClause

/-! ## Operands -/

theorem Value.isScalar_ofJson (j : Json) : (Value.ofJson j).isScalar = j.isScalar := by
  cases j with
  | number n =>
      cases n with
      | integer value bounds =>
          simp only [Value.ofJson, JsonNumber.toValue]
          split <;> rfl
      | float value finite => rfl
  | null => rfl
  | bool b => rfl
  | string s => rfl
  | array items => rfl
  | object fields => rfl

namespace Condition

theorem readOperand_eq_ok_iff {name : String} {j : Json} {v : Value} :
    readOperand name j = .ok v ↔ j.isScalar = true ∧ v = Value.ofJson j := by
  by_cases h : j.isScalar = true
  · simp [readOperand, h, eq_comm]
  · simp [readOperand, h]

theorem readOperands_eq_ok_iff {name : String} {items : List Json} {values : List Value} :
    readOperands name items = .ok values ↔
      items ≠ [] ∧ (∀ j ∈ items, j.isScalar = true) ∧ values = items.map Value.ofJson := by
  have hmap : items.mapM (readOperand name) = .ok values ↔
      (∀ j ∈ items, j.isScalar = true) ∧ values = items.map Value.ofJson := by
    rw [mapM_eq_ok_iff]
    simp only [readOperand_eq_ok_iff, List.forall₂_and_left]
    have heq : List.Forall₂ (fun j v => v = Value.ofJson j) items values ↔
        List.Forall₂ Eq values (items.map Value.ofJson) := by
      rw [List.forall₂_map_right_iff]
      exact ⟨fun h => h.flip, fun h => h.flip⟩
    rw [heq, List.forall₂_eq_eq_eq]
  by_cases hne : items = []
  · simp [readOperands, hne]
  · rw [readOperands, if_neg (by simpa using hne), hmap]
    simp [hne]

theorem readRange_eq_ok_iff {name : String} {operand : Json} {c : Condition} :
    readRange name operand = .ok c ↔
      ∃ low high, operand = .array [low, high] ∧ low.isScalar = true ∧ high.isScalar = true ∧
        c = .between (Value.ofJson low) (Value.ofJson high) := by
  cases operand with
  | array items =>
      rw [readRange, bind_eq_ok_iff]
      constructor
      · rintro ⟨values, hvalues, h⟩
        obtain ⟨_, hscalars, rfl⟩ := readOperands_eq_ok_iff.mp hvalues
        split at h
        · rename_i low high hpair
          cases h
          obtain ⟨first, others, rfl, rfl, hothers⟩ := List.map_eq_cons_iff.mp hpair
          obtain ⟨second, rest, rfl, rfl, hrest⟩ := List.map_eq_cons_iff.mp hothers
          rw [List.map_eq_nil_iff.mp hrest] at hscalars ⊢
          exact ⟨first, second, rfl, hscalars first (by simp), hscalars second (by simp), rfl⟩
        · cases h
      · rintro ⟨low, high, hitems, hlow, hhigh, rfl⟩
        cases hitems
        exact ⟨_, readOperands_eq_ok_iff.mpr ⟨by simp, by simp [hlow, hhigh], rfl⟩, rfl⟩
  | _ => simp [readRange]

/-- No two operators are the same word. -/
theorem isKeyword_eq {word text : String} (h : isKeyword word text = true) (other : String) :
    isKeyword other text = (word == other) := by
  have hlower : text.toLower = word := by
    simpa [isKeyword] using h
  rw [isKeyword, hlower]

section Operators

variable {name operator : String} {operand : Json}

theorem readOperator_equals (hop : isKeyword "=" operator = true) :
    readOperator name operator operand =
      (do let v ← readOperand name operand; .ok (.equals v)) :=
  if_pos hop

theorem readOperator_compare (op : Comparison) (hop : isKeyword op.operator operator = true) :
    readOperator name operator operand =
      (do let v ← readOperand name operand; .ok (.compare op v)) := by
  cases op <;> simp [readOperator, isKeyword_eq hop, Comparison.operator]

theorem readOperator_between (hop : isKeyword "between" operator = true) :
    readOperator name operator operand = readRange name operand := by
  simp [readOperator, isKeyword_eq hop]

theorem readOperator_isIn (hop : isKeyword "inq" operator = true) :
    readOperator name operator operand =
      match operand with
      | .array items => do let vs ← readOperands name items; .ok (.isIn vs)
      | _ => .error (.membershipNotList name) := by
  cases operand <;> simp [readOperator, isKeyword_eq hop]

end Operators

theorem readOperator_cases (name operator : String) (operand : Json) :
    (isKeyword "=" operator = true ∧ readOperator name operator operand =
      (do let v ← readOperand name operand; .ok (.equals v))) ∨
    (∃ op : Comparison, isKeyword op.operator operator = true ∧
      readOperator name operator operand =
        (do let v ← readOperand name operand; .ok (.compare op v))) ∨
    (isKeyword "between" operator = true ∧
      readOperator name operator operand = readRange name operand) ∨
    (isKeyword "inq" operator = true ∧ ∃ items, operand = .array items ∧
      readOperator name operator operand =
        (do let vs ← readOperands name items; .ok (.isIn vs))) ∨
    (isKeyword "inq" operator = true ∧ (∀ items, operand ≠ .array items) ∧
      readOperator name operator operand = .error (.membershipNotList name)) ∨
    (isOperator operator = false ∧
      readOperator name operator operand = .error (.unknownOperator operator)) := by
  by_cases hequals : isKeyword "=" operator = true
  · exact .inl ⟨hequals, readOperator_equals hequals⟩
  by_cases hlt : isKeyword "lt" operator = true
  · exact .inr (.inl ⟨.lt, hlt, readOperator_compare .lt hlt⟩)
  by_cases hle : isKeyword "lte" operator = true
  · exact .inr (.inl ⟨.le, hle, readOperator_compare .le hle⟩)
  by_cases hgt : isKeyword "gt" operator = true
  · exact .inr (.inl ⟨.gt, hgt, readOperator_compare .gt hgt⟩)
  by_cases hge : isKeyword "gte" operator = true
  · exact .inr (.inl ⟨.ge, hge, readOperator_compare .ge hge⟩)
  by_cases hbetween : isKeyword "between" operator = true
  · exact .inr (.inr (.inl ⟨hbetween, readOperator_between hbetween⟩))
  by_cases hinq : isKeyword "inq" operator = true
  · cases operand with
    | array items =>
        exact .inr (.inr (.inr (.inl ⟨hinq, items, rfl, readOperator_isIn hinq⟩)))
    | _ =>
        exact .inr (.inr (.inr (.inr (.inl ⟨hinq, by simp, readOperator_isIn hinq⟩))))
  · have hunknown : isOperator operator = false := by
      simp [isOperator, hequals, hlt, hle, hgt, hge, hbetween, hinq]
    refine .inr (.inr (.inr (.inr (.inr ⟨hunknown, ?_⟩))))
    unfold readOperator
    simp [hequals, hlt, hle, hgt, hge, hbetween, hinq]

theorem readOperator_eq_ok_iff {name operator : String} {operand : Json} {c : Condition} :
    readOperator name operator operand = .ok c ↔ Writes (.object [(operator, operand)]) c := by
  constructor
  · intro h
    rcases readOperator_cases name operator operand with
      ⟨hop, heq⟩ | ⟨op, hop, heq⟩ | ⟨hop, heq⟩ | ⟨hop, items, rfl, heq⟩ | ⟨_, _, heq⟩ | ⟨_, heq⟩
    · obtain ⟨v, hv, hpair⟩ := bind_eq_ok_iff.mp (heq ▸ h)
      cases hpair
      obtain ⟨hscalar, rfl⟩ := readOperand_eq_ok_iff.mp hv
      exact .equals hop hscalar
    · obtain ⟨v, hv, hpair⟩ := bind_eq_ok_iff.mp (heq ▸ h)
      cases hpair
      obtain ⟨hscalar, rfl⟩ := readOperand_eq_ok_iff.mp hv
      exact .compare op hop hscalar
    · obtain ⟨low, high, rfl, hlow, hhigh, rfl⟩ := readRange_eq_ok_iff.mp (heq ▸ h)
      exact .between hop hlow hhigh
    · obtain ⟨values, hvalues, hpair⟩ := bind_eq_ok_iff.mp (heq ▸ h)
      cases hpair
      obtain ⟨hne, hscalars, rfl⟩ := readOperands_eq_ok_iff.mp hvalues
      exact .isIn hop hne hscalars
    · cases heq ▸ h
    · cases heq ▸ h
  · intro h
    cases h with
    | scalar h => cases h
    | equals hop h =>
        rw [readOperator_equals hop]
        exact bind_eq_ok_iff.mpr ⟨_, readOperand_eq_ok_iff.mpr ⟨h, rfl⟩, rfl⟩
    | compare op hop h =>
        rw [readOperator_compare op hop]
        exact bind_eq_ok_iff.mpr ⟨_, readOperand_eq_ok_iff.mpr ⟨h, rfl⟩, rfl⟩
    | @between operator low high hop hlow hhigh =>
        rw [readOperator_between hop]
        exact readRange_eq_ok_iff.mpr ⟨low, high, rfl, hlow, hhigh, rfl⟩
    | @isIn operator items hop hne h =>
        rw [readOperator_isIn hop]
        exact bind_eq_ok_iff.mpr ⟨_, readOperands_eq_ok_iff.mpr ⟨hne, h, rfl⟩, rfl⟩

theorem read_eq_ok_iff {name : String} {j : Json} {c : Condition} :
    read name j = .ok c ↔ Writes j c := by
  constructor
  · intro h
    cases j with
    | array items =>
        obtain ⟨values, hvalues, hpair⟩ := bind_eq_ok_iff.mp h
        cases hpair
        obtain ⟨hne, hscalars, rfl⟩ := readOperands_eq_ok_iff.mp hvalues
        exact .list hne hscalars
    | object fields =>
        match fields, h with
        | [], h => cases h
        | [(operator, operand)], h => exact readOperator_eq_ok_iff.mp h
        | _ :: _ :: _, h => cases h
    | _ =>
        cases h
        exact .scalar rfl
  · intro h
    cases h with
    | scalar h =>
        cases j with
        | array items => cases h
        | object fields => cases h
        | _ => rfl
    | list hne h => exact bind_eq_ok_iff.mpr ⟨_, readOperands_eq_ok_iff.mpr ⟨hne, h, rfl⟩, rfl⟩
    | equals hop h => exact readOperator_eq_ok_iff.mpr (.equals hop h)
    | compare op hop h => exact readOperator_eq_ok_iff.mpr (.compare op hop h)
    | between hop hlow hhigh => exact readOperator_eq_ok_iff.mpr (.between hop hlow hhigh)
    | isIn hop hne h => exact readOperator_eq_ok_iff.mpr (.isIn hop hne h)

/-! ## Which part of the query is at fault -/

theorem kind_of_readOperand {name : String} {j : Json} {e : QueryError}
    (h : readOperand name j = .error e) : e.kind = .filter := by
  unfold readOperand at h
  split at h
  · cases h
  · cases h
    rfl

theorem kind_of_readOperands {name : String} {items : List Json} {e : QueryError}
    (h : readOperands name items = .error e) : e.kind = .filter := by
  unfold readOperands at h
  split at h
  · cases h
    rfl
  · obtain ⟨j, _, hj⟩ := exists_of_mapM_error h
    exact kind_of_readOperand hj

theorem kind_of_readRange {name : String} {operand : Json} {e : QueryError}
    (h : readRange name operand = .error e) : e.kind = .filter := by
  unfold readRange at h
  split at h
  · rcases bind_eq_error_iff.mp h with hvalues | ⟨values, _, h⟩
    · exact kind_of_readOperands hvalues
    · split at h
      · cases h
      · cases h
        rfl
  · cases h
    rfl

theorem isOperator_of_isKeyword {word operator : String} (h : isKeyword word operator = true)
    (hmem : word ∈ ["=", "lt", "lte", "gt", "gte", "between", "inq"]) :
    isOperator operator = true :=
  List.any_eq_true.mpr ⟨word, hmem, h⟩

/-- An unknown operator is at fault whatever its operand is. -/
theorem kind_of_readOperator {name operator : String} {operand : Json} {e : QueryError}
    (h : readOperator name operator operand = .error e) :
    e.kind = if isOperator operator then .filter else .operator := by
  have hfilter : isOperator operator = true → e.kind = .filter →
      e.kind = if isOperator operator then .filter else .operator := by
    intro hop hkind
    rw [if_pos hop, hkind]
  rcases readOperator_cases name operator operand with
    ⟨hop, heq⟩ | ⟨op, hop, heq⟩ | ⟨hop, heq⟩ | ⟨hop, items, rfl, heq⟩ | ⟨hop, _, heq⟩ |
      ⟨hunknown, heq⟩
  · apply hfilter (isOperator_of_isKeyword hop (by simp))
    exact kind_of_readOperand (bind_ok_eq_error_iff.mp (heq ▸ h))
  · apply hfilter (isOperator_of_isKeyword hop (by cases op <;> simp [Comparison.operator]))
    exact kind_of_readOperand (bind_ok_eq_error_iff.mp (heq ▸ h))
  · exact hfilter (isOperator_of_isKeyword hop (by simp)) (kind_of_readRange (heq ▸ h))
  · apply hfilter (isOperator_of_isKeyword hop (by simp))
    exact kind_of_readOperands (bind_ok_eq_error_iff.mp (heq ▸ h))
  · apply hfilter (isOperator_of_isKeyword hop (by simp))
    cases heq ▸ h
    rfl
  · rw [if_neg (by simp [hunknown])]
    cases heq ▸ h
    rfl

theorem kind_of_read {name : String} {j : Json} {e : QueryError} (h : read name j = .error e) :
    e.kind = faultKind j := by
  cases j with
  | array items =>
      exact kind_of_readOperands (bind_ok_eq_error_iff.mp h)
  | object fields =>
      match fields, h with
      | [], h =>
          cases h
          rfl
      | [(operator, operand)], h => exact kind_of_readOperator h
      | _ :: _ :: _, h =>
          cases h
          rfl
  | _ => cases h

end Condition

/-! ## Entries -/

theorem WhereClause.readGroupEntry_eq_ok_iff {j : Json} {entry : String × Value} :
    readGroupEntry j = .ok entry ↔ Clause.WritesEquality j entry := by
  constructor
  · intro h
    unfold readGroupEntry at h
    split at h
    · rename_i name operand
      obtain ⟨v, hv, hpair⟩ := bind_eq_ok_iff.mp h
      cases hpair
      obtain ⟨hscalar, rfl⟩ := Condition.readOperand_eq_ok_iff.mp hv
      exact ⟨operand, rfl, hscalar, rfl⟩
    · cases h
  · rintro ⟨operand, rfl, hscalar, hvalue⟩
    have hv : Condition.readOperand entry.1 operand = .ok entry.2 :=
      Condition.readOperand_eq_ok_iff.mpr ⟨hscalar, hvalue⟩
    simp [readGroupEntry, hv]

theorem WhereClause.readGroup_eq_ok_iff {j : Json} {entries : List (String × Value)} :
    readGroup j = .ok entries ↔
      ∃ items, j = .array items ∧ items ≠ [] ∧
        List.Forall₂ Clause.WritesEquality items entries := by
  cases j with
  | array items =>
      by_cases hne : items = []
      · simp [readGroup, hne]
      · rw [readGroup, if_neg (by simpa using hne), mapM_eq_ok_iff]
        simp [hne, readGroupEntry_eq_ok_iff]
  | _ => simp [readGroup]

theorem WhereClause.kind_of_readGroup {j : Json} {e : QueryError}
    (h : readGroup j = .error e) : e.kind = .filter := by
  unfold readGroup at h
  split at h
  · split at h
    · cases h
      rfl
    · obtain ⟨item, _, hitem⟩ := exists_of_mapM_error h
      unfold readGroupEntry at hitem
      split at hitem
      · exact Condition.kind_of_readOperand (bind_ok_eq_error_iff.mp hitem)
      · cases hitem
        rfl
  · cases h
    rfl

namespace WhereClause

theorem readField_eq_ok_iff {w w' : WhereClause} {field : String × Json} :
    w.readField field = .ok w' ↔ ∃ clause, Clause.Writes field clause ∧ w' = w.add clause := by
  obtain ⟨key, j⟩ := field
  constructor
  · intro h
    unfold readField at h
    split at h
    · rename_i hor
      obtain ⟨entries, hentries, hpair⟩ := bind_eq_ok_iff.mp h
      cases hpair
      obtain ⟨items, hj, hne, hall⟩ := readGroup_eq_ok_iff.mp hentries
      cases hj
      exact ⟨_, .anyOf hor hne hall, rfl⟩
    split at h
    · cases h
    · rename_i hor hand
      obtain ⟨c, hc, hpair⟩ := bind_eq_ok_iff.mp h
      cases hpair
      exact ⟨_, .on (by simpa using hor) (by simpa using hand) (Condition.read_eq_ok_iff.mp hc),
        rfl⟩
  · rintro ⟨clause, hclause, rfl⟩
    cases hclause with
    | on hor hand hc =>
        have hread : ∀ name, Condition.read name j = .ok _ :=
          fun _ => Condition.read_eq_ok_iff.mpr hc
        simp [readField, hor, hand, hread, add]
    | anyOf hor hne hall =>
        have hgroup := readGroup_eq_ok_iff.mpr ⟨_, rfl, hne, hall⟩
        simp [readField, hor, hgroup, add]

theorem kind_of_readField {w : WhereClause} {field : String × Json} {e : QueryError}
    (h : w.readField field = .error e) : e.kind = Clause.faultKind field := by
  unfold readField at h
  split at h
  · rename_i hor
    have hand : isKeyword "and" field.1 = false := by
      rw [Condition.isKeyword_eq hor]
      rfl
    rw [Clause.faultKind, if_neg (by simp [hand]), if_pos hor]
    exact kind_of_readGroup (bind_ok_eq_error_iff.mp h)
  split at h
  · rename_i hand
    rw [Clause.faultKind, if_pos hand]
    cases h
    rfl
  · rename_i hor hand
    rw [Clause.faultKind, if_neg hand, if_neg hor]
    exact Condition.kind_of_read (bind_ok_eq_error_iff.mp h)

end WhereClause

/-! ## Documents -/

theorem Clause.plain_of_writes {field : String × Json} {clause : Clause}
    (h : Clause.Writes field clause) : clause.Plain := by
  have hscalars : ∀ {items : List Json}, (∀ j ∈ items, j.isScalar = true) →
      ∀ v ∈ items.map Value.ofJson, v.isScalar = true := by
    intro items h v hv
    obtain ⟨j, hj, rfl⟩ := List.mem_map.mp hv
    rw [Value.isScalar_ofJson]
    exact h j hj
  cases h with
  | on _ _ hc =>
      cases hc with
      | scalar h => simp [Plain, Condition.operands, Value.isScalar_ofJson, h]
      | list hne h => exact ⟨by simpa [Condition.operands] using hne, hscalars h⟩
      | equals _ h => simp [Plain, Condition.operands, Value.isScalar_ofJson, h]
      | compare op _ h => simp [Plain, Condition.operands, Value.isScalar_ofJson, h]
      | between _ hlow hhigh =>
          simp [Plain, Condition.operands, Value.isScalar_ofJson, hlow, hhigh]
      | isIn _ hne h => exact ⟨by simpa [Condition.operands] using hne, hscalars h⟩
  | anyOf _ hne hall =>
      constructor
      · rintro rfl
        exact hne (List.forall₂_nil_right_iff.mp hall)
      · intro entry hentry
        obtain ⟨j, _, operand, rfl, hscalar, hvalue⟩ := exists_of_mem_forall₂ hall.flip hentry
        rw [hvalue, Value.isScalar_ofJson]
        exact hscalar

namespace WhereClause

/-- The attributes with conditions are keys of the document, in its order. -/
theorem attributes_sublist_of_writes {fields : List (String × Json)} {clauses : List Clause}
    (h : List.Forall₂ Clause.Writes fields clauses) :
    (clauses.filterMap Clause.attribute?).Sublist (fields.map Prod.fst) := by
  induction h with
  | nil => exact .slnil
  | cons hfirst _ ih =>
      cases hfirst with
      | @on name _ _ _ _ _ => exact ih.cons_cons name
      | @anyOf key _ _ _ _ _ => exact ih.cons key

theorem readFields_eq_ok_iff {fields : List (String × Json)} {w w' : WhereClause} :
    fields.foldlM readField w = .ok w' ↔
      ∃ entries, List.Forall₂ Clause.Writes fields entries ∧ w' = entries.foldl add w := by
  have hstep : ∀ before field after, readField before field = .ok after ↔
      ∃ clause, Clause.Writes field clause ∧ after = before.add clause :=
    fun _ _ _ => readField_eq_ok_iff
  exact foldlM_eq_ok_iff hstep

/-- Fields that are not repeated are read entry by entry. -/
theorem readFields_of_nodup {fields : List (String × Json)}
    (hnodup : (fields.map Prod.fst).Nodup) {w : WhereClause} :
    fields.foldlM readField empty = .ok w ↔ List.Forall₂ Clause.Writes fields w.clauses := by
  rw [readFields_eq_ok_iff]
  -- A group has no attribute, so the attributes are among the keys and none is set twice.
  have hbuild : ∀ entries, List.Forall₂ Clause.Writes fields entries →
      entries.foldl add empty = ⟨entries⟩ := by
    intro entries hentries
    exact build_eq ((attributes_sublist_of_writes hentries).nodup hnodup)
  constructor
  · rintro ⟨entries, hentries, rfl⟩
    rw [hbuild entries hentries]
    exact hentries
  · intro h
    exact ⟨w.clauses, h, (hbuild w.clauses h).symm⟩

theorem read_eq_ok_iff {j : Json} (hfields : j.FieldsDistinct) {w : WhereClause} :
    read j = .ok w ↔ Writes j w := by
  cases j with
  | null =>
      constructor
      · intro h
        cases h
        exact .null
      · intro h
        cases h
        rfl
  | object fields =>
      rw [read, readFields_of_nodup (hfields fields rfl)]
      constructor
      · exact fun h => .object h
      · intro h
        cases h with
        | object h => exact h
  | _ =>
      constructor
      · intro h
        cases h
      · intro h
        cases h

/-- No object in a text that is read repeats a field, so what is below a key is read exactly. -/
theorem read_field_eq_ok_iff {text : String} {j : Json} (h : Json.read text = some j)
    (key : String) {w : WhereClause} : read (j.field key) = .ok w ↔ Writes (j.field key) w :=
  read_eq_ok_iff ((Json.merged_of_read h).field key).fieldsDistinct

theorem exists_build_of_read {j : Json} {w : WhereClause} (h : read j = .ok w) :
    ∃ entries, w = build entries ∧ ∀ clause ∈ entries, clause.Plain := by
  cases j with
  | null =>
      cases h
      exact ⟨[], rfl, by simp⟩
  | object fields =>
      obtain ⟨entries, hentries, rfl⟩ := readFields_eq_ok_iff.mp h
      refine ⟨entries, rfl, fun clause hclause => ?_⟩
      obtain ⟨field, _, hwrites⟩ := exists_of_mem_forall₂ hentries.flip hclause
      exact Clause.plain_of_writes hwrites
  | _ => cases h

theorem plain_of_read {j : Json} {w : WhereClause} (h : read j = .ok w) :
    w.Distinct ∧ ∀ clause ∈ w.clauses, clause.Plain := by
  obtain ⟨entries, rfl, hplain⟩ := exists_build_of_read h
  exact ⟨distinct_build entries, fun clause hclause => hplain clause (mem_of_mem_build hclause)⟩

theorem faulty_of_read {j : Json} {e : QueryError} (h : read j = .error e) :
    Faulty j e.kind := by
  cases j with
  | null => cases h
  | object fields =>
      obtain ⟨before, field, after, w, rfl, hbefore, hfield⟩ := exists_of_foldlM_error h
      obtain ⟨entries, hentries, _⟩ := readFields_eq_ok_iff.mp hbefore
      rw [kind_of_readField hfield]
      apply Faulty.field
      · intro earlier hmem
        obtain ⟨clause, _, hwrites⟩ := exists_of_mem_forall₂ hentries hmem
        exact ⟨clause, hwrites⟩
      · intro clause hwrites
        have hok : w.readField field = .ok (w.add clause) :=
          readField_eq_ok_iff.mpr ⟨clause, hwrites, rfl⟩
        cases hfield.symm.trans hok
  | _ =>
      cases h
      exact .shape (by simp) (by simp)

/-- A document is read exactly as the clause that it writes, which has one condition for each
attribute and plain operands; any other document is refused for its first fault. -/
theorem read_exact (j : Json) (hfields : j.FieldsDistinct) :
    (∀ w, read j = .ok w ↔ Writes j w) ∧
      (∀ w, read j = .ok w → w.Distinct ∧ ∀ clause ∈ w.clauses, clause.Plain) ∧
      ∀ e, read j = .error e → Faulty j e.kind :=
  ⟨fun _ => read_eq_ok_iff hfields, fun _ => plain_of_read, fun _ => faulty_of_read⟩

/-- A document with a range and a group, and one whose second field is refused. -/
theorem read_exact_range_group_combinator :
    read (.object
        [("age", .object [("Between", .array [.bool false, .bool true])]),
          ("Or", .array [.object [("name", .string "Ann")], .object [("name", .null)]])]) =
      .ok ⟨[.on "age" (.between (.bool false) (.bool true)),
        .anyOf [("name", .string "Ann"), ("name", .null)]]⟩ ∧
      Faulty (.object [("age", .bool true), ("And", .null), ("name", .object [])])
        .combinator := by
  have hage : isKeyword "or" "age" = false ∧ isKeyword "and" "age" = false := by
    decide +kernel
  constructor
  · have hfields : Json.FieldsDistinct (.object
        [("age", .object [("Between", .array [.bool false, .bool true])]),
          ("Or", .array [.object [("name", .string "Ann")], .object [("name", .null)]])]) := by
      intro fields h
      cases h
      decide
    apply ((read_exact _ hfields).1 _).mpr
    have hbetween : isKeyword "between" "Between" = true := by
      decide +kernel
    have hor : isKeyword "or" "Or" = true := by
      decide +kernel
    have hgroup : List.Forall₂ Clause.WritesEquality
        [.object [("name", .string "Ann")], .object [("name", .null)]]
        [("name", .string "Ann"), ("name", .null)] :=
      .cons ⟨_, rfl, rfl, rfl⟩ (.cons ⟨_, rfl, rfl, rfl⟩ .nil)
    exact .object (.cons (.on hage.1 hage.2 (.between hbetween rfl rfl))
      (.cons (.anyOf hor (by simp) hgroup) .nil))
  · have hfields : Json.FieldsDistinct
        (.object [("age", .bool true), ("And", .null), ("name", .object [])]) := by
      intro fields h
      cases h
      decide
    have hand : isKeyword "or" "And" = false ∧ isKeyword "and" "And" = true := by
      decide +kernel
    have hread : read (.object [("age", .bool true), ("And", .null), ("name", .object [])]) =
        .error (.unsupportedCombinator "And") := by
      simp only [read, List.foldlM_cons, readField, hage, hand, Condition.read]
      rfl
    exact (read_exact _ hfields).2.2 _ hread

end WhereClause

end KeyedQuery
