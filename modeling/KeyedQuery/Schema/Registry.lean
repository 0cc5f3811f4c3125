import KeyedQuery.Schema.Basic

/-!
# Models and their registry

A model gives a name to a table and its schema.  A registry holds models by
name; a model enters it once, with a valid schema, and stays as it was
registered.
-/

namespace KeyedQuery

/-- A named table with its schema. -/
structure Model where
  name : String
  /-- The table, where it is not named like the model. -/
  table : Option String
  schema : KeySchema

/-- The name of the table of a model. -/
def Model.tableName (m : Model) : String :=
  m.table.getD m.name

/-- Why a model cannot be registered, found or used. -/
inductive CatalogError where
  | schema (fault : SchemaFault)
  | modelSchema (model : String) (fault : SchemaFault)
  | modelRepeated (model : String)
  | modelUnknown (model : String)
deriving DecidableEq, Repr

def CatalogError.message : CatalogError → String
  | .schema fault => fault.message
  | .modelSchema model fault => "model `" ++ model ++ "`: " ++ fault.message
  | .modelRepeated model => "model `" ++ model ++ "` is already registered"
  | .modelUnknown model => "unknown model `" ++ model ++ "`"

/-- The registered models, by name. -/
structure Registry where
  models : Dict Model

namespace Registry

def empty : Registry :=
  ⟨.empty⟩

/-- Add a model with a valid schema and a new name. -/
def register (r : Registry) (m : Model) : Except CatalogError Registry :=
  match m.schema.validate with
  | .error fault => .error (.modelSchema m.name fault)
  | .ok () =>
      if r.models.contains m.name then
        .error (.modelRepeated m.name)
      else
        .ok ⟨r.models.insert m.name m⟩

def get (r : Registry) (name : String) : Except CatalogError Model :=
  match r.models.get? name with
  | some m => .ok m
  | none => .error (.modelUnknown name)

/-- The names of the models, in increasing order. -/
def names (r : Registry) : List String :=
  r.models.names

end Registry

end KeyedQuery
