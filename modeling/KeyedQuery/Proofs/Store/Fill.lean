import KeyedQuery.Proofs.Store.Put

/-!
# Filling a table

Records are put into tables one after another.  Of the records of one primary
key a table keeps the last one, in the place of the first one; so up to order it
holds the records that no later one replaces.
-/

namespace KeyedQuery

section LastOfEach

variable {α : Type}

end LastOfEach

namespace Table

/-- A table after some records have been put one after another. -/
def fill (t : Table) (records : List Record) : Table :=
  { t with records :=
      records.foldl (fun held r => replaceOrAppend t.schema.samePrimaryKey r held) t.records }

end Table

namespace MemoryStore

variable {s s' : MemoryStore} {name : String} {t : Table}

end MemoryStore

end KeyedQuery
