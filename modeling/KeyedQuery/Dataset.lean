import KeyedQuery.Json.Reader
import KeyedQuery.Json.Printer
import KeyedQuery.Explain
import KeyedQuery.Schema.Document
import KeyedQuery.Store.Memory

/-!
# Queries over files

Two files make a dataset: one lists models, the other the records of each model.
A query is then a text that is run over the dataset or explained, and the result
is written as an indented document or as lines.
-/

namespace KeyedQuery

/-- Why a query over files fails. -/
inductive DatasetError where
  | unreadable (file : String)
  | invalidJson (source : String)
  | recordsNotObject
  | recordsNotList (model : String)
  | query (error : QueryError)
  | read (error : ReadError)
  | store (error : StoreError)

def DatasetError.message : DatasetError → String
  | .unreadable file => "failed to read " ++ file
  | .invalidJson source => "invalid JSON in " ++ source
  | .recordsNotObject =>
      "invalid data file: expected an object mapping model names to record arrays"
  | .recordsNotList model =>
      "invalid data file: records for `" ++ model ++ "` must be an array"
  | .query e => e.message
  | .read e => e.message
  | .store e => e.message

/-- A file: its name, and its text if it can be read. -/
structure TextFile where
  name : String
  text : Option String

/-- The document of a file. -/
def TextFile.json (f : TextFile) : Except DatasetError Json :=
  match f.text with
  | none => .error (.unreadable f.name)
  | some text =>
      match Json.read text with
      | some j => .ok j
      | none => .error (.invalidJson f.name)

namespace Registry

/-- The models of a document with the one field `models`. -/
def modelsOfJson? (j : Json) : Option (List Model) := do
  match ← j.structFields? ["models"] with
  | [some (.array items)] => items.mapM Model.ofJson?
  | _ => none

/-- The registry of a schema file. -/
def load (f : TextFile) : Except DatasetError Registry := do
  match modelsOfJson? (← f.json) with
  | none => .error (.invalidJson f.name)
  | some models =>
      (models.foldlM register empty).mapError fun e => .read (.catalog e)

end Registry

namespace MemoryStore

/-- A table for each model of a registry, in name order. -/
def ofRegistry (pageSize : Nat) (r : Registry) : MemoryStore :=
  r.models.entries.foldl
    (fun s entry => s.createTable entry.2.tableName entry.2.schema) (.ofPageSize pageSize)

/-- Put one record of a document into the table of its model. -/
def loadRecord (m : Model) (s : MemoryStore) (j : Json) : Except DatasetError MemoryStore := do
  let r ← (Record.read j).mapError DatasetError.query
  (s.put m.tableName (m.schema.coerceRecord r)).mapError fun why => .store (.rejected why)

/-- Put the records that a document lists under the name of a model. -/
def loadModel (r : Registry) (s : MemoryStore) (field : String × Json) :
    Except DatasetError MemoryStore := do
  let m ← (r.get field.1).mapError fun e => DatasetError.read (.catalog e)
  match field.2 with
  | .array items => items.foldlM (loadRecord m) s
  | _ => .error (.recordsNotList field.1)

/-- The store of a registry and a data file. -/
def load (pageSize : Nat) (r : Registry) (f : TextFile) : Except DatasetError MemoryStore := do
  match ← f.json with
  | .object fields => fields.foldlM (loadModel r) (ofRegistry pageSize r)
  | _ => .error .recordsNotObject

end MemoryStore

/-- How a result is written. -/
inductive OutputFormat where
  | json
  | lines
deriving DecidableEq, Repr

def OutputFormat.name : OutputFormat → String
  | .json => "json"
  | .lines => "lines"

/-- The text of an answer: a document, or a record a line. -/
def Answer.text (a : Answer) : OutputFormat → String
  | .json =>
      Json.indented <| .object <|
        ("records", .array (a.records.map Record.toJson)) ::
          Explanation.field? "include" a.included
  | .lines => "\n".intercalate (a.records.map fun r => r.toJson.compact)

/-- The text of an explanation: a document, or the report alone. -/
def Explanation.text (e : Explanation) : OutputFormat → String
  | .json => e.toJson.indented
  | .lines => e.report

/-- What a command is told, apart from the data. -/
structure Command where
  schema : TextFile
  model : String
  /-- The query, as a text. -/
  filter : String
  format : OutputFormat

namespace Command

def query (c : Command) : Except DatasetError Query :=
  match Json.read c.filter with
  | none => .error (.invalidJson "--filter")
  | some j => (Query.read j).mapError .query

def explain (c : Command) : Except DatasetError String := do
  let r ← Registry.load c.schema
  let q ← c.query
  let e ← (r.explain c.model q).mapError DatasetError.read
  .ok (e.text c.format)

def run (c : Command) (data : TextFile) (pageSize : Nat) (config : ReadConfig)
    (context : ReadContext) : Except DatasetError String := do
  let r ← Registry.load c.schema
  let s ← MemoryStore.load pageSize r data
  let q ← c.query
  let x : Executor := ⟨s.client, r, config⟩
  let a ← (x.read c.model q context).result.mapError DatasetError.read
  .ok (a.text c.format)

end Command

end KeyedQuery
