import KeyedQuery.Proofs.Plan.Meaning
import KeyedQuery.Proofs.Schema.Valid
import KeyedQuery.Store.Memory

/-!
# The keys that a plan reads by

A clause that fixes the hash attribute is read by key.  The attribute that
narrows the read has a condition of its own, and it is the sort attribute of what
is read: of the table, or of the index that the classification names.  So the key
condition tests the hash attribute for equality and at most the sort attribute
besides, and a record that satisfies it has both.
-/

namespace KeyedQuery

namespace KeySchema

variable {s : KeySchema} {w : WhereClause}

theorem indexSortedBy?_spec {name : String} {index : SecondaryIndex}
    (h : s.indexSortedBy? name = some index) :
    index ∈ s.indexes ∧ index.sortKey = name ∧ index.hashKey = s.hashKey := by
  have htest := List.find?_some h
  rw [Bool.and_eq_true, beq_iff_eq, beq_iff_eq] at htest
  exact ⟨List.mem_of_find?_eq_some h, htest.1, htest.2⟩

theorem indexSortMatch?_spec {matched : SortMatch} (h : s.indexSortMatch? w = some matched) :
    (∃ c, w.get? matched.name = some c) ∧ matched.name ≠ s.hashKey ∧
      ∃ index, s.indexSortedBy? matched.name = some index ∧ matched.index = some index.name := by
  obtain ⟨⟨name, condition⟩, hmem, hentry⟩ := List.exists_of_findSome?_eq_some h
  dsimp only at hentry
  split at hentry
  · cases hentry
  · rename_i htest
    obtain ⟨index, hindex, rfl⟩ := Option.map_eq_some_iff.mp hentry
    refine ⟨?_, fun hhash => htest (.inl hhash), index, hindex, rfl⟩
    cases hget : w.get? name with
    | some c => exact ⟨c, rfl⟩
    | none =>
        have habsent := List.lookup_eq_none_iff.mp hget (name, condition) hmem
        simp at habsent

/-- A narrowing attribute has a condition, and the table or an index sorts by it. -/
theorem sortMatch?_spec {matched : SortMatch} (h : s.sortMatch? w = some matched) :
    (∃ c, w.get? matched.name = some c) ∧
      (s.sortKey = some matched.name ∧ matched.index = none ∨
        matched.name ≠ s.hashKey ∧
          ∃ index, s.indexSortedBy? matched.name = some index ∧
            matched.index = some index.name) := by
  unfold sortMatch? at h
  split at h
  · rename_i sortKey hsort
    cases h
    obtain ⟨hsort, hnarrows⟩ := Option.filter_eq_some_iff.mp hsort
    obtain ⟨c, hget, _⟩ := (Option.any_eq_true _ _).mp hnarrows
    exact ⟨⟨c, hget⟩, .inl ⟨hsort, rfl⟩⟩
  · obtain ⟨hget, hindex⟩ := indexSortMatch?_spec h
    exact ⟨hget, .inr hindex⟩

end KeySchema

theorem Plan.index_eq (p : Plan) :
    p.index = p.classification.sortMatch.bind SortMatch.index :=
  rfl

namespace Plan.Of

variable {p : Plan} {m : Model} {w : WhereClause}

/-! ## What is read -/

theorem hashCondition (h : p.Of m w) (hmode : p.mode = .lookup) :
    ∃ value, w.get? m.schema.hashKey = some (.equals value) := by
  have hequality : (w.get? m.schema.hashKey).any Condition.isEquality = true := by
    unfold Plan.mode Classification.mode at hmode
    rw [h.classification] at hmode
    by_contra hnot
    simp [KeySchema.classify, hnot] at hmode
  obtain ⟨c, hget, hc⟩ := (Option.any_eq_true _ _).mp hequality
  cases c with
  | equals value => exact ⟨value, hget⟩
  | compare op value => cases hc
  | between low high => cases hc
  | isIn values => cases hc

theorem sortMatch_spec (h : p.Of m w) {matched : SortMatch}
    (hmatched : p.classification.sortMatch = some matched) :
    p.mode = .lookup ∧ m.schema.sortMatch? w = some matched := by
  rw [h.classification] at hmatched
  unfold Plan.mode Classification.mode
  rw [h.classification]
  by_cases hequality : (w.get? m.schema.hashKey).any Condition.isEquality = true
  · simpa [KeySchema.classify, hequality] using hmatched
  · simp [KeySchema.classify, hequality] at hmatched

/-- The index that a plan names is the one that the classification chose, in the schema too. -/
theorem index_spec (h : p.Of m w) (hvalid : m.schema.Valid) {name : String}
    (hindex : p.index = some name) :
    ∃ matched index, p.classification.sortMatch = some matched ∧
      m.schema.indexSortedBy? matched.name = some index ∧ index.name = name ∧
      m.schema.index? name = some index := by
  obtain ⟨matched, hmatched, hname⟩ := Option.bind_eq_some_iff.mp hindex
  obtain ⟨_, ⟨_, hnone⟩ | ⟨_, index, hsorted, hsome⟩⟩ :=
    KeySchema.sortMatch?_spec (h.sortMatch_spec hmatched).2
  · rw [hnone] at hname
    cases hname
  · rw [hsome] at hname
    cases hname
    exact ⟨matched, index, hmatched, hsorted, rfl,
      hvalid.index?_name (KeySchema.indexSortedBy?_spec hsorted).1⟩

/-- The keys of what is read are the hash attribute and the narrowing one, if there is one. -/
theorem keyNames (h : p.Of m w) (hvalid : m.schema.Valid) {t : Table}
    (ht : t.schema = m.schema) :
    ∃ keys, t.keyNames p.table p.index = .ok keys ∧ keys.hash = m.schema.hashKey ∧
      ∀ matched, p.classification.sortMatch = some matched →
        keys.sort = some matched.name ∧ matched.name ≠ keys.hash := by
  cases hmatched : p.classification.sortMatch with
  | none =>
      refine ⟨⟨m.schema.hashKey, m.schema.sortKey⟩, ?_, rfl, fun other hother => by cases hother⟩
      rw [p.index_eq, hmatched, ← ht]
      rfl
  | some matched =>
      obtain ⟨_, ⟨hsort, hnone⟩ | ⟨hne, index, hsorted, hsome⟩⟩ :=
        KeySchema.sortMatch?_spec (h.sortMatch_spec hmatched).2
      · refine ⟨⟨m.schema.hashKey, m.schema.sortKey⟩, ?_, rfl, fun other hother => ?_⟩
        · rw [p.index_eq, hmatched, Option.bind_some, hnone, ← ht]
          rfl
        · cases hother
          refine ⟨hsort, fun hsame => hvalid.sortOther ?_⟩
          rw [hsort, hsame]
      · obtain ⟨hmem, hsort, hhash⟩ := KeySchema.indexSortedBy?_spec hsorted
        refine ⟨⟨index.hashKey, some index.sortKey⟩, ?_, hhash, fun other hother => ?_⟩
        · rw [p.index_eq, hmatched, Option.bind_some, hsome]
          simp only [Table.keyNames, ht, hvalid.index?_name hmem]
        · cases hother
          refine ⟨by rw [hsort], fun hsame => hne ?_⟩
          rw [hsame, hhash]

/-! ## The key condition -/

/-- In a read by key the key condition is about the hash attribute and the narrowing one. -/
theorem conditionsOn_keyAttributes (h : p.Of m w) (hmode : p.mode = .lookup) :
    ∃ value narrowing, w.conditionsOn (m.schema.keyAttributes p.classification) =
        .on m.schema.hashKey (.equals value) :: narrowing ∧
      (p.classification.sortMatch = none ∧ narrowing = [] ∨
        ∃ matched c, p.classification.sortMatch = some matched ∧
          narrowing = [.on matched.name c]) := by
  obtain ⟨value, hhash⟩ := h.hashCondition hmode
  have hattributes : m.schema.keyAttributes p.classification =
      m.schema.hashKey :: (p.classification.sortMatch.map SortMatch.name).toList := by
    unfold Plan.mode at hmode
    simp only [KeySchema.keyAttributes, hmode]
  rw [hattributes]
  cases hmatched : p.classification.sortMatch with
  | none => exact ⟨value, [], by simp [WhereClause.conditionsOn, hhash], .inl ⟨rfl, rfl⟩⟩
  | some matched =>
      obtain ⟨⟨c, hget⟩, _⟩ := KeySchema.sortMatch?_spec (h.sortMatch_spec hmatched).2
      exact ⟨value, [.on matched.name c], by simp [WhereClause.conditionsOn, hhash, hget],
        .inr ⟨matched, c, rfl, rfl⟩⟩

end Plan.Of

end KeyedQuery
