import KeyedQuery.Proofs.Coercion
import KeyedQuery.Proofs.Plan.Partition

/-!
# Coercion is a normal form

Coercing what was coerced changes nothing.  A value that converts is null or in the
representation of its type, and such a value converts to itself.  A record keeps its
attributes and a where clause its entries; only values of declared attributes change.
-/

namespace KeyedQuery

/-! ## Values -/

namespace Value

variable {v w : Value} {type : ScalarType}

/-- Conversion makes no null of anything else, and null of null. -/
theorem isNull_of_coerce? (h : v.coerce? type = some w) : w.isNull = v.isNull := by
  cases hv : v.isNull with
  | true =>
      unfold coerce? at h
      rw [hv] at h
      cases h
      rfl
  | false =>
      have hof := isOf_of_coerce?_of_not_null hv h
      cases w with
      | null => cases type <;> cases hof
      | _ => rfl

end Value

/-! ## Where clauses -/

/-- A condition without its operands: its kind, its operator and how many operands it has. -/
def Condition.form : Condition → Condition
  | .equals _ => .equals .null
  | .compare op _ => .compare op .null
  | .between _ _ => .between .null .null
  | .isIn values => .isIn (values.map fun _ => .null)

/-- An entry of a where clause without its operands, but with its attributes. -/
def Clause.form : Clause → Clause
  | .on name c => .on name c.form
  | .anyOf entries => .anyOf (entries.map fun entry => (entry.1, .null))

theorem Condition.Rewrites.form {ε : Type} {f : Value → Except ε Value} {c converted : Condition}
    (h : c.Rewrites f converted) : converted.form = c.form := by
  cases h with
  | equals _ => rfl
  | compare _ => rfl
  | between _ _ => rfl
  | isIn h => simp [Condition.form, List.map_const', h.length_eq]

theorem Condition.Rewrites.again {ε : Type} {f : Value → Except ε Value} {c converted : Condition}
    (h : c.Rewrites f converted) (hf : ∀ v v', f v = .ok v' → f v' = .ok v') :
    converted.Rewrites f converted := by
  cases h with
  | equals h => exact .equals (hf _ _ h)
  | compare h => exact .compare (hf _ _ h)
  | between hlow hhigh => exact .between (hf _ _ hlow) (hf _ _ hhigh)
  | isIn h =>
      refine .isIn (List.forall₂_same.mpr fun v hv => ?_)
      obtain ⟨_, _, hconverted⟩ := exists_of_mem_forall₂ h.flip hv
      exact hf _ _ hconverted

theorem Condition.exists_of_mapOperands_error {ε : Type} {f : Value → Except ε Value}
    {c : Condition} {e : ε} (h : c.mapOperands f = .error e) : ∃ v ∈ c.operands, f v = .error e := by
  cases c with
  | equals v => exact ⟨v, List.mem_cons_self, bind_ok_eq_error_iff.mp h⟩
  | compare op v => exact ⟨v, List.mem_cons_self, bind_ok_eq_error_iff.mp h⟩
  | between low high =>
      rcases bind_eq_error_iff.mp h with hlow | ⟨_, _, h⟩
      · exact ⟨low, List.mem_cons_self, hlow⟩
      · exact ⟨high, List.mem_cons_of_mem low List.mem_cons_self, bind_ok_eq_error_iff.mp h⟩
  | isIn values => exact exists_of_mapM_error (bind_ok_eq_error_iff.mp h)

namespace KeySchema

variable {s : KeySchema} {name : String} {v v' : Value} {clause converted : Clause}
  {w coerced : WhereClause} {fault : OperandFault}

/-- What becomes of an operand: it converts if its attribute is declared, or else it stays. -/
def Converts (s : KeySchema) (operand operand' : String × Value) : Prop :=
  operand'.1 = operand.1 ∧
    match s.typeOf? operand.1 with
    | some type => operand.2.coerce? type = some operand'.2
    | none => operand'.2 = operand.2

/-- A fault is of an operand of the clause that does not convert to its declared type. -/
def Blames (s : KeySchema) (w : WhereClause) (fault : OperandFault) : Prop :=
  (∃ clause ∈ w.clauses, (fault.name, fault.value) ∈ clause.operands) ∧
    s.typeOf? fault.name = some fault.type ∧ fault.value.coerce? fault.type = none

theorem coerceOperand_eq_ok_iff :
    s.coerceOperand name v = .ok v' ↔ s.Converts (name, v) (name, v') := by
  unfold coerceOperand Converts KeyedQuery.coerceOperand
  cases s.typeOf? name with
  | none => simp [eq_comm]
  | some type => cases hconverted : v.coerce? type <;> simp [hconverted]

theorem coerceOperand_eq_error (h : s.coerceOperand name v = .error fault) :
    fault.name = name ∧ fault.value = v ∧ s.typeOf? name = some fault.type ∧
      v.coerce? fault.type = none := by
  unfold coerceOperand at h
  split at h
  · rename_i type htype
    unfold KeyedQuery.coerceOperand at h
    split at h
    · cases h
    · rename_i hnone
      cases h
      exact ⟨rfl, rfl, htype, hnone⟩
  · cases h

theorem coerceOperand_again (h : s.coerceOperand name v = .ok v') :
    s.coerceOperand name v' = .ok v' := by
  rw [coerceOperand_eq_ok_iff] at h ⊢
  refine ⟨rfl, ?_⟩
  have hvalue := h.2
  dsimp only at hvalue ⊢
  cases htype : s.typeOf? name with
  | none => rfl
  | some type =>
      rw [htype] at hvalue
      exact Value.coerce?_of_coerce? hvalue

theorem Coerces.form (h : s.Coerces clause converted) : converted.form = clause.form := by
  cases h with
  | on h => simp [Clause.form, h.form]
  | anyOf h =>
      simp only [Clause.form, Clause.anyOf.injEq]
      induction h with
      | nil => rfl
      | cons hfirst _ ih => simp [hfirst.1, ih]

theorem Coerces.operands (h : s.Coerces clause converted) :
    List.Forall₂ s.Converts clause.operands converted.operands := by
  cases h with
  | on h =>
      simp only [Clause.operands, List.forall₂_map_left_iff, List.forall₂_map_right_iff]
      exact h.operands.imp fun _ _ => coerceOperand_eq_ok_iff.mp
  | anyOf h =>
      refine h.imp fun entry entry' hentry => ?_
      obtain ⟨name, value⟩ := entry
      obtain ⟨name', value'⟩ := entry'
      obtain ⟨rfl, hvalue⟩ := hentry
      exact coerceOperand_eq_ok_iff.mp hvalue

/-- An entry that was coerced stays as it is. -/
theorem Coerces.again (h : s.Coerces clause converted) : s.Coerces converted converted := by
  cases h with
  | on h => exact .on (h.again fun _ _ => coerceOperand_again)
  | anyOf h =>
      refine .anyOf (List.forall₂_same.mpr fun entry hentry => ⟨rfl, ?_⟩)
      obtain ⟨_, _, hname, hvalue⟩ := exists_of_mem_forall₂ h.flip hentry
      rw [hname]
      exact coerceOperand_again hvalue

theorem coerceWhere_coerceWhere (h : s.coerceWhere w = .ok coerced) :
    s.coerceWhere coerced = .ok coerced := by
  have hdistinct := distinct_coerceWhere h
  obtain ⟨entries, hentries, rfl⟩ := coerceWhere_eq_ok_iff.mp h
  refine coerceWhere_eq_ok_iff.mpr ⟨_, List.forall₂_same.mpr fun clause hclause => ?_,
    hdistinct.build_eq.symm⟩
  obtain ⟨_, _, hcoerces⟩ :=
    exists_of_mem_forall₂ hentries.flip (WhereClause.mem_of_mem_build hclause)
  exact hcoerces.again

theorem exists_of_coerceClause_error (h : s.coerceClause w clause = .error fault) :
    ∃ operand ∈ clause.operands, s.coerceOperand operand.1 operand.2 = .error fault := by
  cases clause with
  | on name c =>
      obtain ⟨v, hv, hfault⟩ :=
        Condition.exists_of_mapOperands_error (bind_ok_eq_error_iff.mp h)
      exact ⟨(name, v), List.mem_map.mpr ⟨v, hv, rfl⟩, hfault⟩
  | anyOf entries =>
      obtain ⟨entry, hentry, hfault⟩ := exists_of_mapM_error (bind_ok_eq_error_iff.mp h)
      exact ⟨entry, hentry, bind_ok_eq_error_iff.mp hfault⟩

/-- A clause that cannot be coerced has an operand that does not convert, and this is the fault. -/
theorem blames_of_coerceWhere_error (h : s.coerceWhere w = .error fault) : s.Blames w fault := by
  obtain ⟨before, clause, after, _, hsplit, _, hstep⟩ := exists_of_foldlM_error h
  obtain ⟨⟨name, v⟩, hoperand, hfault⟩ := exists_of_coerceClause_error hstep
  obtain ⟨rfl, rfl, htype, hnone⟩ := coerceOperand_eq_error hfault
  exact ⟨⟨clause, by rw [hsplit]; simp, hoperand⟩, htype, hnone⟩

theorem exists_coerceWhere_error_iff :
    (∃ fault, s.coerceWhere w = .error fault) ↔
      ∃ clause ∈ w.clauses, ∃ operand ∈ clause.operands, s.Refuses operand := by
  constructor
  · rintro ⟨fault, hfault⟩
    obtain ⟨⟨clause, hclause, hoperand⟩, htype, hnone⟩ := blames_of_coerceWhere_error hfault
    exact ⟨clause, hclause, _, hoperand, fault.type, htype, hnone⟩
  · rintro ⟨clause, hclause, operand, hoperand, hrefuses⟩
    cases hcoerced : s.coerceWhere w with
    | error fault => exact ⟨fault, rfl⟩
    | ok coerced =>
        exact absurd hrefuses (exists_coerceWhere_iff.mp ⟨coerced, hcoerced⟩ clause hclause
          operand hoperand)

theorem get?_coerceRecord_of_undeclared (hname : s.typeOf? name = none) (r : Record) :
    (s.coerceRecord r).get? name = r.get? name := by
  have hkeep : s.coerceValue name = id := by
    funext v
    simp [coerceValue, hname]
  rw [get?_coerceRecord, hkeep, Option.map_id, id]

/--
Coercion normalizes.  What a value converts to is null only if the value is, or else in
the representation of the type, and it converts to itself.  A coerced record has the
same attributes, with the same values where no type is declared, and stays as it is.  A
where clause that is built or read is refused exactly when an operand does not convert
to its declared type, and the fault is of such an operand; otherwise it is coerced entry
by entry, each of the same form with its operands converted, and then stays as it is.
-/
theorem coercion_normalizes (s : KeySchema) {w : WhereClause} (hw : w.Made) :
    (∀ (v v' : Value) (type : ScalarType), v.coerce? type = some v' →
        v'.isNull = v.isNull ∧ (v.isNull = false → v'.isOf type = true) ∧
          v'.coerce? type = some v') ∧
      (∀ r : Record, s.coerceRecord (s.coerceRecord r) = s.coerceRecord r ∧
        (s.coerceRecord r).names = r.names ∧
        ∀ name, s.typeOf? name = none → (s.coerceRecord r).get? name = r.get? name) ∧
      ((∃ fault, s.coerceWhere w = .error fault) ↔
        ∃ clause ∈ w.clauses, ∃ operand ∈ clause.operands, s.Refuses operand) ∧
      (∀ fault, s.coerceWhere w = .error fault → s.Blames w fault) ∧
      ∀ coerced, s.coerceWhere w = .ok coerced →
        List.Forall₂
            (fun clause converted => converted.form = clause.form ∧
              List.Forall₂ s.Converts clause.operands converted.operands)
            w.clauses coerced.clauses ∧
          s.coerceWhere coerced = .ok coerced := by
  refine ⟨fun v v' type h => ?_, fun r => ?_, exists_coerceWhere_error_iff,
    fun fault => blames_of_coerceWhere_error, fun coerced h => ⟨?_, coerceWhere_coerceWhere h⟩⟩
  · exact ⟨Value.isNull_of_coerce? h, fun hv => Value.isOf_of_coerce?_of_not_null hv h,
      Value.coerce?_of_coerce? h⟩
  · exact ⟨s.coerceRecord_coerceRecord r, Dict.names_map r s.coerceValue,
      fun name hname => get?_coerceRecord_of_undeclared hname r⟩
  · exact (coerces_of_coerceWhere hw.distinct h).imp fun _ _ hcoerces =>
      ⟨hcoerces.form, hcoerces.operands⟩

/-- Numbers and a date as text, in a range, a list and a group, and an undeclared attribute. -/
def loosely : List Clause :=
  [.on "n" (.between (.string " 7") (.float ⟨0x4024000000000000⟩)), .on "x" (.equals (.list [])),
    .on "at" (.isIn [.string "1970-01-02", .int 5, .null]),
    .anyOf [("n", .string "1e3"), ("x", .string "1"), ("n", .timestamp 5)]]

theorem coercion_normalizes_loosely :
    let s := ((KeySchema.ofHashKey "id" .string).declare "n" .number).declare "at" .date
    (∃ coerced, s.coerceWhere (.build loosely) = .ok coerced ∧
        coerced.clauses.length = 4 ∧ s.coerceWhere coerced = .ok coerced) ∧
      ∃ fault, s.coerceWhere (.build [.on "at" (.isIn [.bool true])]) = .error fault := by
  intro s
  constructor
  · have hok : (s.coerceWhere (.build loosely)).isOk = true := by decide +kernel
    obtain ⟨coerced, hcoerced⟩ := exists_of_isOk hok
    obtain ⟨hentries, hagain⟩ := (s.coercion_normalizes (.calls loosely)).2.2.2.2 coerced hcoerced
    exact ⟨coerced, hcoerced, hentries.length_eq.symm, hagain⟩
  · have hmem : .on "at" (.isIn [.bool true]) ∈
        (WhereClause.build [.on "at" (.isIn [.bool true])]).clauses := List.mem_singleton_self _
    exact (s.coercion_normalizes (.calls _)).2.2.1.mpr
      ⟨_, hmem, ("at", .bool true), List.mem_singleton_self _, .date, rfl, rfl⟩

end KeySchema

end KeyedQuery
