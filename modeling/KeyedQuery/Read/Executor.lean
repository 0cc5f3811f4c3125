import KeyedQuery.Read.Paging
import KeyedQuery.Sorting

/-!
# Answering queries

A query on a model is planned, its records are fetched, coerced and sorted, and
the window is taken last.  Nothing is asked of the store before the query, the
model and the plan are known to be good.
-/

namespace KeyedQuery

/-- The answer to a query. -/
structure Answer where
  records : List Record
  /-- The document that the query wants handed back. -/
  included : Option Json
  mode : ReadMode
  /-- The number of pages that were fetched. -/
  pages : Nat

/-- A store, the models in it, and the limits of reads. -/
structure Executor where
  client : Client
  registry : Registry
  config : ReadConfig

namespace KeySchema

/-- What a query returns of the records that its plan fetched. -/
def arrange (s : KeySchema) (q : Query) (records : List Record) : List Record :=
  window q.offset q.limit
    (s.sortRecords (s.effectiveOrder q.order) (records.map s.coerceRecord))

end KeySchema

namespace Executor

def model (x : Executor) (name : String) : Except ReadError Model :=
  (x.registry.get name).mapError .catalog

def plan (x : Executor) (name : String) (w : WhereClause) : Except ReadError Plan := do
  let m ← x.model name
  (m.plan w).mapError .plan

def read (x : Executor) (name : String) (q : Query) (context : ReadContext) :
    Outcome Answer :=
  .after (x.model name) fun m =>
    .after ((m.plan q.conditions).mapError .plan) fun p =>
      (p.fetchAll x.client x.config context).map fun fetched =>
        { records := m.schema.arrange q fetched.records
          included := q.included
          mode := p.mode
          pages := fetched.pages }

def find (x : Executor) (name : String) (q : Query) : Outcome (List Record) :=
  (x.read name q .idle).map Answer.records

/-- Answer a query that is still a document. -/
def findJson (x : Executor) (name : String) (j : Json) : Outcome Answer :=
  .after ((Query.read j).mapError .query) fun q => x.read name q .idle

/-- The first record that answers a query, whatever its limit. -/
def findOne (x : Executor) (name : String) (q : Query) : Outcome (Option Record) :=
  (x.find name { q with limit := some 1 }).map List.head?

/-- The number of records that satisfy a where clause. -/
def count (x : Executor) (name : String) (w : WhereClause) : Outcome Nat :=
  .after (x.plan name w) fun p =>
    (p.fetchAll x.client x.config .idle).map fun fetched => fetched.records.length

/-- The conjunction of an equality for each attribute of a record. -/
def keyClause (key : Record) : WhereClause :=
  key.entries.foldl (fun w entry => w.set entry.1 (.equals entry.2)) .empty

/-- Whether a record has the given attribute values, of which there must be one. -/
def hasRecord (x : Executor) (name : String) (key : Record) : Outcome Bool :=
  if key.isEmpty then
    .fail .keyEmpty
  else
    (x.findOne name { Query.all with conditions := keyClause key }).map Option.isSome

end Executor

end KeyedQuery
