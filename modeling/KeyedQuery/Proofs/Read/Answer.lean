import KeyedQuery.Proofs.Read.Paging
import KeyedQuery.Proofs.Store.Acceptance
import KeyedQuery.Read.Executor

/-!
# The answer to a query

A store in memory gives the records of a table page after page, in order and
without a gap, so the pages of a plan together hold the records that satisfy the
coerced clause.  What a query answers is what its clause says of the records
directly, whatever the plan reads by and however many records a page looks at.
-/

namespace KeyedQuery

namespace Table

variable {t : Table} {keep : Record → Bool} {pageSize count : Nat}

/-! ## The pages of a table -/

theorem cursor_pageOf {first : Nat} (h : first + pageSize < t.records.length) :
    (t.pageOf keep pageSize first).cursor = some (.ofPosition (first + pageSize)) := by
  simp [pageOf, h]

end Table

namespace Table

end Table

/-- A client answers the requests of a plan with the pages of a table. -/
def Plan.ReadsPages (p : Plan) (client : Client) (t : Table) (keep : Record → Bool)
    (pageSize : Nat) : Prop :=
  ∀ earlier cursor first, Table.start cursor = .ok first →
    client earlier (p.request cursor) = .ok (t.pageOf keep pageSize first)

namespace Plan.ReadsPages

variable {p : Plan} {client : Client} {t : Table} {keep : Record → Bool} {pageSize : Nat}

/-! ## Reading them -/

/-- A read that succeeds has all records, whatever limits it is under. -/
theorem records_of_fetchAll (h : p.ReadsPages client t keep pageSize)
    (hbound : t.records.length ≤ 2 ^ 64) {config : ReadConfig} {context : ReadContext}
    {fetched : Fetched} (hread : (p.fetchAll client config context).result = .ok fetched) :
    fetched.records = t.records.filter keep := by
  -- before every round, the records in front of the position of the cursor
  refine fetchFrom_property
    (P := fun s : Progress => ∃ first, Table.start s.cursor = .ok first ∧
      s.fetched.records = (t.records.take first).filter keep)
    (Q := fun fetched : Fetched => fetched.records = t.records.filter keep) ?_ ?_ ⟨0, rfl, rfl⟩ hread
  · rintro s page next ⟨first, hstart, hrecords⟩ hpage hnext
    rw [h _ _ _ hstart] at hpage
    cases hpage
    have hmore : first + pageSize < t.records.length := by
      by_contra hall
      simp [Table.pageOf, hall] at hnext
    refine ⟨first + pageSize, ?_, ?_⟩
    · simp only [Progress.addPage, Table.cursor_pageOf hmore, Table.start,
        Cursor.position?_ofPosition (Nat.lt_of_lt_of_le hmore hbound)]
    · simp [Progress.addPage, hrecords, Table.pageOf, List.take_add]
  · rintro s page ⟨first, hstart, hrecords⟩ hpage hnone
    rw [h _ _ _ hstart] at hpage
    cases hpage
    have hall : t.records.length ≤ first + pageSize := by
      by_contra hmore
      rw [Table.cursor_pageOf (by omega)] at hnone
      cases hnone
    have hrest : (t.records.drop first).take pageSize = t.records.drop first :=
      List.take_of_length_le (by rw [List.length_drop]; omega)
    simp only [Progress.addPage, hrecords, Table.pageOf, hrest]
    rw [← List.filter_append, List.take_append_drop]

end Plan.ReadsPages

namespace Plan.Of

variable {p : Plan} {m : Model} {w : WhereClause} {s : MemoryStore} {t : Table}

theorem readsPages (h : p.Of m w) (hdistinct : w.Distinct) (hvalid : m.schema.Valid)
    (htable : s.tables.get? m.tableName = some t) (hschema : t.schema = m.schema) :
    p.ReadsPages s.client t w.holds s.pageSize :=
  fun earlier _ _ hstart => h.client_eq_pageOf hdistinct hvalid htable hschema hstart earlier

end Plan.Of

/-- A query on a model is answered exactly when it has a plan whose pages can be fetched. -/
theorem Executor.read_eq_ok_iff {x : Executor} {name : String} {q : Query}
    {context : ReadContext} {m : Model} {answer : Answer}
    (hmodel : x.registry.get name = .ok m) :
    (x.read name q context).result = .ok answer ↔
      ∃ p fetched, m.plan q.conditions = .ok p ∧
        (p.fetchAll x.client x.config context).result = .ok fetched ∧
        answer = ⟨m.schema.arrange q fetched.records, q.included, p.mode, fetched.pages⟩ := by
  have hfound : x.model name = .ok m := mapError_eq_ok_iff.mpr hmodel
  unfold read
  rw [Outcome.result_after_eq_ok_iff]
  constructor
  · rintro ⟨other, hother, h⟩
    rw [hfound] at hother
    cases hother
    obtain ⟨p, hplan, h⟩ := Outcome.result_after_eq_ok_iff.mp h
    obtain ⟨fetched, hfetched, hanswer⟩ := Outcome.result_map_eq_ok_iff.mp h
    exact ⟨p, fetched, mapError_eq_ok_iff.mp hplan, hfetched, hanswer.symm⟩
  · rintro ⟨p, fetched, hplan, hfetched, rfl⟩
    refine ⟨m, hfound, Outcome.result_after_eq_ok_iff.mpr ⟨p, mapError_eq_ok_iff.mpr hplan, ?_⟩⟩
    exact Outcome.result_map_eq_ok_iff.mpr ⟨fetched, hfetched, rfl⟩

/-- The store and the model with awkward names, read without a timeout. -/
def Executor.awkward : Executor :=
  ⟨MemoryStore.awkward.client, ⟨Dict.empty.insert "awkward" .awkward⟩,
    ReadConfig.default.withoutTimeout⟩

end KeyedQuery
