import KeyedQuery.Proofs.Read.Answer
import KeyedQuery.Proofs.Schema.Valid
import KeyedQuery.Proofs.Sorting

/-!
# Reading a whole table

A query without conditions is a scan without a filter.  It finds every record of
the table, whatever schema the table was created with, and coerces it with the
schema of the model.
-/

namespace KeyedQuery

/-- The plan of a query without conditions. -/
def Model.scan (m : Model) : Plan where
  model := m.name
  table := m.tableName
  classification := m.schema.classify .empty
  keyConditions := []
  filters := []
  bindings := .empty

end KeyedQuery
