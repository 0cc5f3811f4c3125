import KeyedQuery.Plan
import KeyedQuery.Proofs.Dict
import KeyedQuery.Proofs.Except

/-!
# Clauses with one condition for each attribute

A where clause that is put together by its own operations has at most one
condition on an attribute.  In such a clause a look-up finds the only condition
there is, so the clause is the conjunction of the conditions on any attributes
and of all other entries.
-/

namespace KeyedQuery

namespace WhereClause

/-- The attributes that have a condition, in order. -/
def names (w : WhereClause) : List String :=
  w.clauses.filterMap Clause.attribute?

/-- No attribute has two conditions. -/
def Distinct (w : WhereClause) : Prop :=
  w.names.Nodup

/-- The conditions on some attributes, in the order of the attributes. -/
def conditionsOn (w : WhereClause) (names : List String) : List Clause :=
  names.filterMap fun name => (w.get? name).map (.on name)

/-! ## Building a clause -/

theorem distinct_empty : empty.Distinct :=
  List.nodup_nil

theorem mem_setClause {name : String} {c : Condition} {clauses : List Clause} {clause : Clause}
    (h : clause ∈ setClause name c clauses) : clause = .on name c ∨ clause ∈ clauses := by
  induction clauses with
  | nil => simpa using h
  | cons first rest ih =>
      cases first with
      | on other held =>
          by_cases hname : other = name
          · rw [hname, setClause_on_self] at h
            rcases List.mem_cons.mp h with h | h
            · exact .inl h
            · exact .inr (List.mem_cons_of_mem _ h)
          · rw [setClause_on_of_ne hname] at h
            rcases List.mem_cons.mp h with rfl | h
            · exact .inr List.mem_cons_self
            · exact (ih h).imp_right (List.mem_cons_of_mem _)
      | anyOf entries =>
          rcases List.mem_cons.mp h with rfl | h
          · exact .inr List.mem_cons_self
          · exact (ih h).imp_right (List.mem_cons_of_mem _)

theorem names_setClause (name : String) (c : Condition) (clauses : List Clause) :
    (setClause name c clauses).filterMap Clause.attribute? =
      if name ∈ clauses.filterMap Clause.attribute? then
        clauses.filterMap Clause.attribute?
      else
        clauses.filterMap Clause.attribute? ++ [name] := by
  induction clauses with
  | nil => rfl
  | cons clause rest ih =>
      cases clause with
      | on other held =>
          by_cases heq : other = name
          · simp [heq]
          · have hne : name ≠ other := fun h => heq h.symm
            simp only [setClause_on_of_ne heq, List.filterMap_cons, Clause.attribute?_on, ih,
              List.mem_cons, hne, false_or]
            split <;> simp
      | anyOf entries => simpa [List.filterMap_cons] using ih

/-- Setting a condition adds its attribute at the end, unless the attribute has a place. -/
theorem names_set (w : WhereClause) (name : String) (c : Condition) :
    (w.set name c).names = if name ∈ w.names then w.names else w.names ++ [name] :=
  names_setClause name c w.clauses

theorem Distinct.set {w : WhereClause} (h : w.Distinct) (name : String) (c : Condition) :
    (w.set name c).Distinct := by
  unfold Distinct
  rw [names_set]
  split
  · exact h
  · rename_i hfresh
    refine List.nodup_append.mpr ⟨h, by simp, ?_⟩
    intro a ha b hb heq
    rw [heq, List.mem_singleton.mp hb] at ha
    exact hfresh ha

theorem Distinct.addAnyOf {w : WhereClause} (h : w.Distinct)
    (entries : List (String × Value)) : (w.addAnyOf entries).Distinct := by
  unfold Distinct names at h ⊢
  simpa [WhereClause.addAnyOf, List.filterMap_cons] using h

/-! ## Looking a condition up -/

theorem mem_attributes_iff {w : WhereClause} {name : String} {c : Condition} :
    (name, c) ∈ w.attributes ↔ Clause.on name c ∈ w.clauses := by
  unfold attributes
  rw [List.mem_filterMap]
  constructor
  · rintro ⟨clause, hmem, hclause⟩
    cases clause with
    | on other held =>
        cases hclause
        exact hmem
    | anyOf entries => cases hclause
  · intro hmem
    exact ⟨_, hmem, rfl⟩

theorem map_fst_attributes (w : WhereClause) : w.attributes.map Prod.fst = w.names := by
  obtain ⟨clauses⟩ := w
  simp only [attributes, names]
  induction clauses with
  | nil => rfl
  | cons clause rest ih =>
      cases clause with
      | on name c => simp [ih]
      | anyOf entries => simpa [List.filterMap_cons] using ih

/-- In a clause with one condition for each attribute a look-up finds the one there is. -/
theorem Distinct.get?_eq_some_iff {w : WhereClause} (h : w.Distinct) {name : String}
    {c : Condition} : w.get? name = some c ↔ Clause.on name c ∈ w.clauses := by
  rw [← mem_attributes_iff]
  constructor
  · intro hget
    obtain ⟨before, after, heq, _⟩ := List.lookup_eq_some_iff.mp hget
    rw [heq]
    simp
  · intro hmem
    refine Dict.lookup_eq_some_of_mem ?_ hmem
    rw [map_fst_attributes]
    exact h

theorem Distinct.mem_conditionsOn_iff {w : WhereClause} (h : w.Distinct)
    {names : List String} {clause : Clause} :
    clause ∈ w.conditionsOn names ↔
      clause ∈ w.clauses ∧ clause.isOnOneOf names = true := by
  unfold conditionsOn
  rw [List.mem_filterMap]
  constructor
  · rintro ⟨name, hname, hclause⟩
    obtain ⟨c, hget, rfl⟩ := Option.map_eq_some_iff.mp hclause
    exact ⟨h.get?_eq_some_iff.mp hget, by simpa [Clause.isOnOneOf] using hname⟩
  · rintro ⟨hmem, hon⟩
    cases clause with
    | on name c =>
        refine ⟨name, by simpa [Clause.isOnOneOf] using hon, ?_⟩
        rw [h.get?_eq_some_iff.mpr hmem]
        rfl
    | anyOf entries => cases hon

/-- An entry on an attribute stands in the clause once. -/
theorem Distinct.nodup_filter {w : WhereClause} (h : w.Distinct) (names : List String) :
    (w.clauses.filter fun clause => clause.isOnOneOf names).Nodup := by
  unfold Distinct WhereClause.names at h
  rw [List.Nodup, List.pairwise_filterMap] at h
  rw [List.Nodup, List.pairwise_filter]
  refine h.imp ?_
  intro clause other hne hon _ hsame
  cases clause with
  | on name c => exact hne name rfl name (by rw [← hsame]; rfl) rfl
  | anyOf entries => cases hon

theorem nodup_conditionsOn (w : WhereClause) {names : List String} (h : names.Nodup) :
    (w.conditionsOn names).Nodup := by
  rw [conditionsOn, List.Nodup, List.pairwise_filterMap]
  refine h.imp ?_
  intro name other hne clause hname clause' hother hsame
  obtain ⟨_, _, rfl⟩ := Option.map_eq_some_iff.mp hname
  obtain ⟨_, _, rfl⟩ := Option.map_eq_some_iff.mp hother
  cases hsame
  exact hne rfl

/-- The conditions on some attributes and all other entries are the entries of the clause. -/
theorem Distinct.perm_conditionsOn {w : WhereClause} (h : w.Distinct) {names : List String}
    (hnames : names.Nodup) :
    (w.conditionsOn names ++
      w.clauses.filter fun clause => !clause.isOnOneOf names).Perm w.clauses := by
  have hkeys : (w.conditionsOn names).Perm
      (w.clauses.filter fun clause => clause.isOnOneOf names) := by
    apply (List.perm_ext_iff_of_nodup (w.nodup_conditionsOn hnames) (h.nodup_filter names)).mpr
    intro clause
    rw [h.mem_conditionsOn_iff, List.mem_filter]
  exact (hkeys.append_right _).trans (List.filter_append_perm _ w.clauses)

/-- A clause says what its conditions on some attributes and all its other entries say. -/
theorem Distinct.holds_eq {w : WhereClause} (h : w.Distinct) (names : List String)
    (r : Record) :
    w.holds r =
      ((w.conditionsOn names).all (fun clause => clause.holds r) &&
        (w.clauses.filter fun clause => !clause.isOnOneOf names).all
          fun clause => clause.holds r) := by
  rw [Bool.eq_iff_iff, Bool.and_eq_true]
  simp only [holds, List.all_eq_true, h.mem_conditionsOn_iff, List.mem_filter]
  constructor
  · intro hall
    exact ⟨fun clause hclause => hall clause hclause.1,
      fun clause hclause => hall clause hclause.1⟩
  · rintro ⟨hon, hother⟩ clause hmem
    by_cases htest : clause.isOnOneOf names = true
    · exact hon clause ⟨hmem, htest⟩
    · exact hother clause ⟨hmem, by simpa using htest⟩

end WhereClause

end KeyedQuery
