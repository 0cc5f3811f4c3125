import KeyedQuery.Proofs.Plan.Keys
import KeyedQuery.Proofs.Where.Document
import KeyedQuery.Read.Error

/-!
# Plans partition clauses

Key attributes are translated first, by name, and all other entries after them,
in order.  Each entry of the coerced clause is translated by exactly one of the
two passes.  Planning fails for an untyped hash attribute, for an operand that
its declared type refuses, or for an entry that has no fragment; the first pass
meets no membership, so it never fails.
-/

namespace KeyedQuery

/-- Why an entry has no fragment as a filter: there is nothing to compare with. -/
def Clause.fault? : Clause → Option TranslationFault
  | .on name (.isIn []) => some (.membershipEmpty name)
  | .anyOf [] => some .groupEmpty
  | _ => none

theorem Clause.fault?_eq_some_iff {clause : Clause} {fault : TranslationFault} :
    clause.fault? = some fault ↔
      (∃ name, clause = .on name (.isIn []) ∧ fault = .membershipEmpty name) ∨
        clause = .anyOf [] ∧ fault = .groupEmpty := by
  cases clause with
  | on name c =>
      cases c with
      | isIn values => cases values <;> simp [fault?, eq_comm]
      | _ => simp [fault?]
  | anyOf entries => cases entries <;> simp [fault?, eq_comm]

theorem WhereClause.exists_fault?_iff {w : WhereClause} :
    (∃ clause ∈ w.clauses, ∃ fault, clause.fault? = some fault) ↔
      (∃ name, .on name (.isIn []) ∈ w.clauses) ∨ .anyOf [] ∈ w.clauses := by
  simp only [Clause.fault?_eq_some_iff]
  constructor
  · rintro ⟨clause, hclause, fault, ⟨name, rfl, _⟩ | ⟨rfl, _⟩⟩
    · exact .inl ⟨name, hclause⟩
    · exact .inr hclause
  · rintro (⟨name, hmem⟩ | hmem)
    · exact ⟨_, hmem, _, .inl ⟨name, rfl, rfl⟩⟩
    · exact ⟨_, hmem, _, .inr ⟨rfl, rfl⟩⟩

theorem Renders.fault? {b : Bindings} {clause : Clause} {f : Fragment}
    (h : Renders b clause f) : clause.fault? = none := by
  cases h with
  | isIn _ hne hvalues =>
      cases hvalues with
      | nil => exact absurd rfl hne
      | cons _ _ => rfl
  | anyOf hne hentries =>
      cases hentries with
      | nil => exact absurd rfl hne
      | cons _ _ => rfl
  | _ => rfl

theorem KeySchema.Coerces.fault? {s : KeySchema} {clause converted : Clause}
    (h : s.Coerces clause converted) : converted.fault? = clause.fault? := by
  cases h with
  | on h =>
      cases h with
      | isIn hvalues => cases hvalues <;> rfl
      | _ => rfl
  | anyOf h => cases h <;> rfl

theorem Clause.Plain.fault? {clause : Clause} (h : clause.Plain) : clause.fault? = none := by
  cases clause with
  | on name c =>
      cases c with
      | isIn values =>
          cases values with
          | nil => exact absurd rfl h.1
          | cons _ _ => rfl
      | _ => rfl
  | anyOf entries =>
      cases entries with
      | nil => exact absurd rfl h.1
      | cons _ _ => rfl

namespace Bindings

/-! ## Faults of translation -/

theorem translateClause_of_fault? {b b' : Bindings} {clause : Clause} {fault : TranslationFault}
    (h : b.translateClause clause = (.error fault, b')) : clause.fault? = some fault := by
  cases clause with
  | on name c =>
      cases c with
      | isIn values =>
          cases values with
          | nil =>
              cases h
              rfl
          | cons value values => cases h
      | _ => cases h
  | anyOf entries =>
      cases entries with
      | nil =>
          cases h
          rfl
      | cons entry entries => cases h

theorem exists_of_translateFilters_error {b : Bindings} {clauses : List Clause}
    {fault : TranslationFault} (h : b.translateFilters clauses = .error fault) :
    ∃ clause ∈ clauses, clause.fault? = some fault := by
  induction clauses generalizing b with
  | nil => cases h
  | cons clause clauses ih =>
      unfold translateFilters at h
      rcases hfirst : b.translateClause clause with ⟨result, b₁⟩
      simp only [hfirst] at h
      cases result with
      | error fault =>
          cases h
          exact ⟨clause, List.mem_cons_self, translateClause_of_fault? hfirst⟩
      | ok f =>
          rcases bind_eq_error_iff.mp h with hrest | ⟨_, _, hnone⟩
          · obtain ⟨other, hother, hfault⟩ := ih hrest
            exact ⟨other, List.mem_cons_of_mem clause hother, hfault⟩
          · cases hnone

theorem isMembership_of_translate_error {b b' : Bindings} {position : Position} {name : String}
    {c : Condition} {fault : TranslationFault}
    (h : b.translate position name c = (.error fault, b')) : c.isMembership = true := by
  cases c with
  | isIn values => rfl
  | _ => cases h

theorem exists_of_translateKeys_error {b : Bindings} {w : WhereClause} {names : List String}
    {fault : TranslationFault} (h : b.translateKeys w names = .error fault) :
    ∃ name ∈ names, ∃ c, w.get? name = some c ∧ c.isMembership = true := by
  induction names generalizing b with
  | nil => cases h
  | cons name names ih =>
      have hlater : ∀ {b : Bindings}, b.translateKeys w names = .error fault →
          ∃ other ∈ name :: names, ∃ c, w.get? other = some c ∧ c.isMembership = true := by
        intro b hrest
        obtain ⟨other, hother, hmembership⟩ := ih hrest
        exact ⟨other, List.mem_cons_of_mem name hother, hmembership⟩
      unfold translateKeys at h
      cases hget : w.get? name with
      | none =>
          rw [hget] at h
          exact hlater h
      | some c =>
          rw [hget] at h
          rcases hfirst : b.translate .key name c with ⟨result, b₁⟩
          simp only [hfirst] at h
          cases result with
          | error fault =>
              exact ⟨name, List.mem_cons_self, c, hget, isMembership_of_translate_error hfirst⟩
          | ok f =>
              rcases bind_eq_error_iff.mp h with hrest | ⟨_, _, hnone⟩
              · exact hlater hrest
              · cases hnone

end Bindings

namespace KeySchema

variable {s : KeySchema} {w : WhereClause}

/-! ## Key attributes -/

/-- The narrowing condition is no membership. -/
theorem narrows_of_sortMatch? (hdistinct : w.Distinct) {matched : SortMatch}
    (h : s.sortMatch? w = some matched) : narrows w matched.name = true := by
  unfold sortMatch? at h
  split at h
  · rename_i sortKey hsort
    cases h
    exact (Option.filter_eq_some_iff.mp hsort).2
  · obtain ⟨⟨name, c⟩, hmem, hentry⟩ := List.exists_of_findSome?_eq_some h
    dsimp only at hentry
    split at hentry
    · cases hentry
    · rename_i htest
      obtain ⟨index, _, rfl⟩ := Option.map_eq_some_iff.mp hentry
      -- The search went through all conditions; a look-up finds the same one, as it is the only one.
      have hget := hdistinct.get?_eq_some_iff.mpr (WhereClause.mem_attributes_iff.mp hmem)
      have hmembership : ¬ c.isMembership = true := fun hc => htest (.inr hc)
      simp [narrows, hget, hmembership]

theorem isEquality_iff :
    (w.get? s.hashKey).any Condition.isEquality = true ↔
      ∃ value, w.get? s.hashKey = some (.equals value) := by
  cases w.get? s.hashKey with
  | none => simp
  | some c => cases c <;> simp [Condition.isEquality]

theorem mode_classify :
    (s.classify w).mode = .lookup ↔ ∃ value, w.get? s.hashKey = some (.equals value) := by
  rw [← isEquality_iff]
  by_cases hequality : (w.get? s.hashKey).any Condition.isEquality = true
  · simp [classify, Classification.mode, hequality]
  · simp [classify, Classification.mode, hequality]

theorem keyAttributes_classify {name : String}
    (hname : name ∈ s.keyAttributes (s.classify w)) :
    (∃ value, w.get? s.hashKey = some (.equals value)) ∧
      (name = s.hashKey ∨ ∃ matched, s.sortMatch? w = some matched ∧ name = matched.name) := by
  by_cases hequality : (w.get? s.hashKey).any Condition.isEquality = true
  · refine ⟨isEquality_iff.mp hequality, ?_⟩
    simp only [keyAttributes, Classification.mode, classify, hequality, if_true,
      List.mem_cons] at hname
    rcases hname with rfl | hsort
    · exact .inl rfl
    · obtain ⟨matched, hmatched, rfl⟩ := Option.map_eq_some_iff.mp (Option.mem_toList.mp hsort)
      exact .inr ⟨matched, hmatched, rfl⟩
  · simp [keyAttributes, Classification.mode, classify, hequality] at hname

theorem isMembership_of_mem_keyAttributes (hdistinct : w.Distinct) {name : String}
    (hname : name ∈ s.keyAttributes (s.classify w)) {c : Condition}
    (hget : w.get? name = some c) : c.isMembership = false := by
  obtain ⟨⟨value, hhash⟩, rfl | ⟨matched, hmatched, rfl⟩⟩ := keyAttributes_classify hname
  · rw [hget] at hhash
    cases hhash
    rfl
  · have hnarrows := narrows_of_sortMatch? hdistinct hmatched
    simpa [narrows, hget] using hnarrows

/-- Where the sort attribute is not the hash attribute, the key attributes are distinct. -/
theorem nodup_keyAttributes (hkeys : s.sortKey ≠ some s.hashKey) :
    (s.keyAttributes (s.classify w)).Nodup := by
  by_cases hequality : (w.get? s.hashKey).any Condition.isEquality = true
  · cases hmatched : s.sortMatch? w with
    | none => simp [keyAttributes, Classification.mode, classify, hequality, hmatched]
    | some matched =>
        have hne : matched.name ≠ s.hashKey := by
          obtain ⟨_, ⟨hsort, _⟩ | ⟨hne, _⟩⟩ := sortMatch?_spec hmatched
          · intro hsame
            exact hkeys (by rw [hsort, hsame])
          · exact hne
        simpa [keyAttributes, Classification.mode, classify, hequality, hmatched] using hne.symm
  · simp [keyAttributes, Classification.mode, classify, hequality]

/-- Coercion keeps every equality an equality, on the same attribute. -/
theorem equality_of_coerces {clauses converted : List Clause} {name : String}
    (h : List.Forall₂ s.Coerces clauses converted) :
    (∃ value, .on name (.equals value) ∈ converted) ↔
      ∃ value, .on name (.equals value) ∈ clauses := by
  constructor
  · rintro ⟨value, hmem⟩
    obtain ⟨clause, hclause, hcoerces⟩ := exists_of_mem_forall₂ h.flip hmem
    cases hcoerces with
    | on hc =>
        cases hc with
        | equals _ => exact ⟨_, hclause⟩
  · rintro ⟨value, hmem⟩
    obtain ⟨clause, hclause, hcoerces⟩ := exists_of_mem_forall₂ h hmem
    cases hcoerces with
    | on hc =>
        cases hc with
        | equals _ => exact ⟨_, hclause⟩

end KeySchema

/-! ## Planning -/

namespace Model

variable {m : Model} {w : WhereClause}

theorem exists_of_translate_error (hdistinct : w.Distinct) {fault : TranslationFault}
    (h : m.translate w = .error fault) : ∃ clause ∈ w.clauses, clause.fault? = some fault := by
  unfold translate at h
  rcases bind_eq_error_iff.mp h with hkeys | ⟨⟨keyConditions, b⟩, _, h⟩
  · obtain ⟨name, hname, c, hget, hmembership⟩ := Bindings.exists_of_translateKeys_error hkeys
    rw [KeySchema.isMembership_of_mem_keyAttributes hdistinct hname hget] at hmembership
    cases hmembership
  · rcases bind_eq_error_iff.mp h with hfilters | ⟨_, _, hnone⟩
    · obtain ⟨clause, hclause, hfault⟩ := Bindings.exists_of_translateFilters_error hfilters
      exact ⟨clause, (List.mem_filter.mp hclause).1, hfault⟩
    · cases hnone

/-- The three causes for which there is no plan, in the order in which they are met. -/
theorem plan_error_cases (hdistinct : w.Distinct) {e : PlanError} (h : m.plan w = .error e) :
    (m.schema.typeOf? m.schema.hashKey = none ∧ ∃ fault, e = .schema fault) ∨
      m.schema.typeOf? m.schema.hashKey ≠ none ∧
        ((∃ clause ∈ w.clauses, ∃ operand ∈ clause.operands, m.schema.Refuses operand) ∧
            (∃ fault, e = .operand fault) ∨
          ∃ clause ∈ w.clauses, ∃ fault, clause.fault? = some fault ∧ e = .translation fault) := by
  unfold plan at h
  split at h
  · rename_i fault huntyped
    cases h
    unfold KeySchema.hashType at huntyped
    split at huntyped
    · cases huntyped
    · rename_i hnone
      exact .inl ⟨hnone, fault, rfl⟩
  · rename_i type htyped
    have hdeclared : m.schema.typeOf? m.schema.hashKey ≠ none := by
      intro hnone
      simp [KeySchema.hashType, hnone] at htyped
    refine .inr ⟨hdeclared, ?_⟩
    split at h
    · rename_i fault hrefused
      cases h
      refine .inl ⟨?_, fault, rfl⟩
      by_contra hnone
      have hall : ∀ clause ∈ w.clauses, ∀ operand ∈ clause.operands,
          ¬ m.schema.Refuses operand :=
        fun clause hclause operand hoperand hrefuses =>
          hnone ⟨clause, hclause, operand, hoperand, hrefuses⟩
      obtain ⟨coerced, hcoerced⟩ := KeySchema.exists_coerceWhere_iff.mpr hall
      rw [hcoerced] at hrefused
      cases hrefused
    · rename_i coerced hcoerced
      split at h
      · rename_i fault htranslate
        cases h
        obtain ⟨converted, hmem, hfault⟩ :=
          exists_of_translate_error (KeySchema.distinct_coerceWhere hcoerced) htranslate
        obtain ⟨clause, hclause, hcoerces⟩ :=
          exists_of_mem_forall₂ (KeySchema.coerces_of_coerceWhere hdistinct hcoerced).flip hmem
        exact .inr ⟨clause, hclause, fault, by rw [← hcoerces.fault?, hfault], rfl⟩
      · cases h

end Model

namespace Plan.Of

variable {p : Plan} {m : Model} {w : WhereClause}

theorem exists_renders (h : p.Of m w) (hdistinct : w.Distinct) {clause : Clause}
    (hclause : clause ∈ w.clauses) : ∃ f, Renders p.bindings clause f := by
  by_cases hkey : clause.isOnOneOf (m.schema.keyAttributes p.classification) = true
  · have hmem := hdistinct.mem_conditionsOn_iff.mpr ⟨hclause, hkey⟩
    obtain ⟨f, _, hrenders, _⟩ := exists_of_mem_forall₂ h.keyConditions hmem
    exact ⟨f, hrenders⟩
  · have hother : clause ∈ w.clauses.filter fun clause =>
        !clause.isOnOneOf (m.schema.keyAttributes p.classification) := by
      simp [hclause, hkey]
    obtain ⟨f, _, hrenders⟩ := exists_of_mem_forall₂ h.filters hother
    exact ⟨f, hrenders⟩

end Plan.Of

/-- A clause with a plan has none of the causes for which there is no plan. -/
theorem Model.no_fault_of_plan {m : Model} {w : WhereClause} {p : Plan} (hdistinct : w.Distinct)
    (h : m.plan w = .ok p) :
    m.schema.typeOf? m.schema.hashKey ≠ none ∧
      ∀ clause ∈ w.clauses,
        (∀ operand ∈ clause.operands, ¬ m.schema.Refuses operand) ∧ clause.fault? = none := by
  have htyped : m.schema.typeOf? m.schema.hashKey ≠ none := by
    intro hnone
    simp [plan, KeySchema.hashType, hnone] at h
  obtain ⟨coerced, hcoerced, hunique, hof⟩ := of_plan h
  refine ⟨htyped, fun clause hclause => ⟨?_, ?_⟩⟩
  · exact KeySchema.exists_coerceWhere_iff.mp ⟨coerced, hcoerced⟩ clause hclause
  · obtain ⟨converted, hmem, hcoerces⟩ :=
      exists_of_mem_forall₂ (KeySchema.coerces_of_coerceWhere hdistinct hcoerced) hclause
    obtain ⟨f, hrenders⟩ := hof.exists_renders hunique hmem
    rw [← hcoerces.fault?, hrenders.fault?]

theorem Model.exists_plan_error_iff {m : Model} {w : WhereClause} (hdistinct : w.Distinct) :
    (∃ e, m.plan w = .error e) ↔
      m.schema.typeOf? m.schema.hashKey = none ∨
        (∃ clause ∈ w.clauses, ∃ operand ∈ clause.operands, m.schema.Refuses operand) ∨
        ∃ clause ∈ w.clauses, ∃ fault, clause.fault? = some fault := by
  constructor
  · rintro ⟨e, he⟩
    rcases plan_error_cases hdistinct he with
      ⟨huntyped, _⟩ | ⟨_, ⟨hrefuses, _⟩ | ⟨clause, hclause, fault, hfault, _⟩⟩
    · exact .inl huntyped
    · exact .inr (.inl hrefuses)
    · exact .inr (.inr ⟨clause, hclause, fault, hfault⟩)
  · intro hcause
    cases hplan : m.plan w with
    | error e => exact ⟨e, rfl⟩
    | ok p =>
        obtain ⟨htyped, hclauses⟩ := no_fault_of_plan hdistinct hplan
        rcases hcause with huntyped | ⟨clause, hclause, operand, hoperand, hrefuses⟩ |
          ⟨clause, hclause, fault, hfault⟩
        · exact absurd huntyped htyped
        · exact absurd hrefuses ((hclauses clause hclause).1 operand hoperand)
        · rw [(hclauses clause hclause).2] at hfault
          cases hfault

/-! ## The partition -/

/-- The clauses that are put together entry by entry, or read from a document. -/
inductive WhereClause.Made : WhereClause → Prop where
  | calls (entries : List Clause) : Made (build entries)
  | document {j : Json} {w : WhereClause} (h : read j = .ok w) : Made w

theorem WhereClause.Made.distinct {w : WhereClause} (h : w.Made) : w.Distinct := by
  cases h with
  | calls entries => exact distinct_build entries
  | document hread => exact (WhereClause.plain_of_read hread).1

/--
The entries of a coerced clause are the ones that a plan renders by its key
conditions and the ones that it renders by its filters.
-/
structure Plan.Partitions (p : Plan) (m : Model) (w coerced : WhereClause)
    (keys others : List Clause) : Prop where
  /-- Coercion keeps the entries of the clause, one by one. -/
  coerces : List.Forall₂ m.schema.Coerces w.clauses coerced.clauses
  /-- No entry is in neither part, and none is in both. -/
  entries : (keys ++ others).Perm coerced.clauses
  inOrder : others.Sublist coerced.clauses
  keyConditions : List.Forall₂ (Renders p.bindings) keys p.keyConditions
  filters : List.Forall₂ (Renders p.bindings) others p.filters
  mode : p.mode = .lookup ↔ ∃ value, .on m.schema.hashKey (.equals value) ∈ w.clauses
  scan : p.mode = .scan → p.keyConditions = []
  lookup : p.mode = .lookup → ∃ value narrowing,
    keys = .on m.schema.hashKey (.equals value) :: narrowing ∧
      (p.classification.sortMatch = none ∧ narrowing = [] ∨
        ∃ matched c, p.classification.sortMatch = some matched ∧ c.isMembership = false ∧
          narrowing = [.on matched.name c])

theorem Plan.Of.partitions {p : Plan} {m : Model} {w coerced : WhereClause}
    (h : p.Of m coerced) (hkeys : m.schema.sortKey ≠ some m.schema.hashKey)
    (hdistinct : w.Distinct) (hcoerced : m.schema.coerceWhere w = .ok coerced) :
    p.Partitions m w coerced (coerced.conditionsOn (m.schema.keyAttributes p.classification))
      (coerced.clauses.filter fun clause =>
        !clause.isOnOneOf (m.schema.keyAttributes p.classification)) := by
  have hunique : coerced.Distinct := KeySchema.distinct_coerceWhere hcoerced
  have hcoerces := KeySchema.coerces_of_coerceWhere hdistinct hcoerced
  have hnodup : (m.schema.keyAttributes p.classification).Nodup := by
    rw [h.classification]
    exact KeySchema.nodup_keyAttributes hkeys
  refine ⟨hcoerces, hunique.perm_conditionsOn hnodup, List.filter_sublist,
    h.keyConditions.imp fun _ _ h => h.1, h.filters, ?_, ?_, ?_⟩
  -- The plan classifies the coerced clause, the statement is about the clause as it was given.
  · rw [Plan.mode, h.classification, KeySchema.mode_classify,
      ← KeySchema.equality_of_coerces hcoerces]
    simp only [hunique.get?_eq_some_iff]
  · intro hscan
    have hconditions := h.keyConditions
    have hnone : m.schema.keyAttributes p.classification = [] := by
      unfold Plan.mode at hscan
      simp only [KeySchema.keyAttributes, hscan]
    rw [hnone] at hconditions
    exact List.forall₂_nil_left_iff.mp hconditions
  · intro hlookup
    obtain ⟨value, narrowing, heq, hnarrowing⟩ := h.conditionsOn_keyAttributes hlookup
    refine ⟨value, narrowing, heq, ?_⟩
    rcases hnarrowing with hnone | ⟨matched, c, hmatched, rfl⟩
    · exact .inl hnone
    · refine .inr ⟨matched, c, hmatched, ?_, rfl⟩
      have hmem : .on matched.name c ∈
          coerced.conditionsOn (m.schema.keyAttributes p.classification) := by
        simp [heq]
      obtain ⟨_, _, _, hfits⟩ := exists_of_mem_forall₂ h.keyConditions hmem
      simpa [Clause.fitsKey] using hfits

/--
A plan partitions the entries of its clause between key condition and filter.
There is no plan exactly when the hash attribute is untyped, an operand is refused
or an entry has nothing to compare with, and then the first of these is at fault;
a clause that was read from a document has something to compare with throughout.
-/
theorem Model.plan_partitions {m : Model} {w : WhereClause}
    (hkeys : m.schema.sortKey ≠ some m.schema.hashKey) (hw : w.Made) :
    (∀ p, m.plan w = .ok p → ∃ coerced keys others,
        m.schema.coerceWhere w = .ok coerced ∧ p.Partitions m w coerced keys others) ∧
      ((∃ e, m.plan w = .error e) ↔
        m.schema.typeOf? m.schema.hashKey = none ∨
          (∃ clause ∈ w.clauses, ∃ operand ∈ clause.operands, m.schema.Refuses operand) ∨
          (∃ name, .on name (.isIn []) ∈ w.clauses) ∨ .anyOf [] ∈ w.clauses) ∧
      (∀ e, m.plan w = .error e →
        (m.schema.typeOf? m.schema.hashKey = none → e.kind = .configuration) ∧
          (m.schema.typeOf? m.schema.hashKey ≠ none → e.kind = .argument) ∧
          ∀ name, e ≠ .translation (.keyMembership name)) ∧
      ∀ j, WhereClause.read j = .ok w → ∀ e, m.plan w = .error e →
        ∀ fault, e ≠ .translation fault := by
  have hdistinct := hw.distinct
  refine ⟨?_, ?_, ?_, ?_⟩
  · intro p hp
    obtain ⟨coerced, hcoerced, _, hof⟩ := of_plan hp
    exact ⟨coerced, _, _, hcoerced, hof.partitions hkeys hdistinct hcoerced⟩
  · rw [exists_plan_error_iff hdistinct, WhereClause.exists_fault?_iff]
  · intro e he
    rcases plan_error_cases hdistinct he with
      ⟨huntyped, fault, rfl⟩ | ⟨htyped, ⟨_, fault, rfl⟩ | ⟨clause, _, fault, hfault, rfl⟩⟩
    · exact ⟨fun _ => rfl, fun htyped => absurd huntyped htyped, by simp⟩
    · exact ⟨fun huntyped => absurd huntyped htyped, fun _ => rfl, by simp⟩
    · refine ⟨fun huntyped => absurd huntyped htyped, fun _ => rfl, ?_⟩
      intro name heq
      cases heq
      simp [Clause.fault?_eq_some_iff] at hfault
  · intro j hread e he fault heq
    rcases plan_error_cases hdistinct he with
      ⟨_, _, rfl⟩ | ⟨_, ⟨_, _, rfl⟩ | ⟨clause, hclause, _, hfault, _⟩⟩
    · cases heq
    · cases heq
    · rw [((WhereClause.plain_of_read hread).2 clause hclause).fault?] at hfault
      cases hfault

theorem Model.plan_partitions_awkward :
    (∃ p coerced keys others, awkward.plan .awkward = .ok p ∧
        awkward.schema.coerceWhere .awkward = .ok coerced ∧
        p.Partitions awkward .awkward coerced keys others) ∧
      ∃ e, awkward.plan (.build [.on "#n" (.isIn [])]) = .error e := by
  have hkeys : awkward.schema.sortKey ≠ some awkward.schema.hashKey := by
    decide
  constructor
  · have hdistinct : WhereClause.awkward.Distinct := by
      unfold WhereClause.Distinct
      decide +kernel
    have hmade : WhereClause.awkward.Made := by
      rw [← hdistinct.build_eq]
      exact .calls _
    have hok : (awkward.plan .awkward).isOk = true := by
      decide +kernel
    obtain ⟨p, hp⟩ := exists_of_isOk hok
    obtain ⟨coerced, keys, others, hcoerced, hpartitions⟩ := (plan_partitions hkeys hmade).1 p hp
    exact ⟨p, coerced, keys, others, hp, hcoerced, hpartitions⟩
  · have hvoid : .on "#n" (.isIn []) ∈ (WhereClause.build [.on "#n" (.isIn [])]).clauses :=
      List.mem_singleton_self _
    exact (plan_partitions hkeys (.calls _)).2.1.mpr (.inr (.inr (.inl ⟨_, hvoid⟩)))

end KeyedQuery
