import KeyedQuery.Json.Basic
import KeyedQuery.Schema.Registry

/-!
# Schemas and models as JSON documents

A structure is written as an object with its fields by name, where unknown keys
are ignored, or as a list of its fields in their order.  A field with a default
may be left out; only an optional name may be `null`.
-/

namespace KeyedQuery

namespace Json

/--
The fields of a structure, in the order of their names: from an object by name,
from a list by place.  A list must not be longer than the structure.
-/
def structFields? (names : List String) : Json → Option (List (Option Json))
  | .object fields => some (names.map fun name => fields.lookup name)
  | .array items =>
      if items.length ≤ names.length then
        some (items.map some ++ List.replicate (names.length - items.length) none)
      else
        none
  | _ => none

/-- A word out of a fixed set: a text, or an object with that one key and `null`. -/
def word? : Json → Option String
  | .string s => some s
  | .object [(name, .null)] => some name
  | _ => none

def string? : Json → Option String
  | .string s => some s
  | _ => none

def optionalString? : Json → Option (Option String)
  | .null => some none
  | .string s => some (some s)
  | _ => none

/-- The value of a field that may be left out. -/
def orDefault {α : Type} (default : α) (read : Json → Option α) : Option Json → Option α
  | none => some default
  | some j => read j

end Json

/-- The declared type that a document names. -/
def ScalarType.ofJson? (j : Json) : Option ScalarType := do
  match ← j.word? with
  | "string" => some .string
  | "number" => some .number
  | "date" => some .date
  | "boolean" => some .boolean
  | _ => none

/-- The index kind that a document names. -/
def IndexKind.ofJson? (j : Json) : Option IndexKind := do
  match ← j.word? with
  | "local" => some .sharing
  | "global" => some .independent
  | _ => none

/-- The index of a document, which must have all four fields. -/
def SecondaryIndex.ofJson? (j : Json) : Option SecondaryIndex := do
  match ← j.structFields? ["name", "hash_key", "sort_key", "kind"] with
  | [some name, some hashKey, some sortKey, some kind] =>
      some ⟨← name.string?, ← hashKey.string?, ← sortKey.string?, ← IndexKind.ofJson? kind⟩
  | _ => none

namespace KeySchema

/-- The declared types of an object. -/
def attributesOfJson? : Json → Option (Dict ScalarType)
  | .object fields => do
      let declared ← fields.mapM fun field => do
        let type ← ScalarType.ofJson? field.2
        some (field.1, type)
      some (Dict.ofList declared)
  | _ => none

def indexesOfJson? : Json → Option (List SecondaryIndex)
  | .array items => items.mapM SecondaryIndex.ofJson?
  | _ => none

/-- The schema of a document; every field has a default. -/
def ofJson? (j : Json) : Option KeySchema := do
  match ← j.structFields? ["hash_key", "sort_key", "attributes", "indexes"] with
  | [hashKey, sortKey, attributes, indexes] =>
      some {
        hashKey := ← Json.orDefault defaultHashKey Json.string? hashKey
        sortKey := ← Json.orDefault none Json.optionalString? sortKey
        attributes := ← Json.orDefault .empty attributesOfJson? attributes
        indexes := ← Json.orDefault [] indexesOfJson? indexes }
  | _ => none

end KeySchema

/-- The model of a document, which must have a name and a schema. -/
def Model.ofJson? (j : Json) : Option Model := do
  match ← j.structFields? ["name", "table", "schema"] with
  | [some name, table, some schema] =>
      some {
        name := ← name.string?
        table := ← Json.orDefault none Json.optionalString? table
        schema := ← KeySchema.ofJson? schema }
  | _ => none

end KeyedQuery
